import FileQuery.Proofs.Table.Grid
import FileQuery.Proofs.Table.Records

/-! Which names a table shows as they are. The cell of a name is found by the headers, and what is
read off it is the name just when the library reads the name as itself; then no two names look alike. -/
set_option autoImplicit false
namespace FileQuery.Table

open Text (trim Blanks)

/-! What is read off a printed table. -/

/-- The width of the first column, from where the border behind its header stands. -/
def firstWidth (printed : String) : Nat :=
  (((lineAt printed 1).drop 2).takeWhile (· != '│')).length - 1

/-- A first cell between two borders, with a text that is filled up to the width. -/
structure FirstCell (rich : Rich) (width : Nat) (line text : List Char) : Prop where
  fits : rich.cells text ≤ width
  placed : ∃ rest, line = '│' :: ' ' :: (rich.fit .left width text ++ ' ' :: '│' :: rest)

/-- Where the column of the names begins, from where its header stands. -/
def lastStart (printed : String) : Nat := ((lineAt printed 1).takeWhile (· != 'N')).length

/-- Results show a name in the first cell of a row, without what fills it up. -/
def ResultShows (rich : Rich) (printed : String) (row : Nat) (name : String) : Prop :=
  ∃ text, FirstCell rich (firstWidth printed) (lineAt printed (3 + row)) text ∧
    trim text = name.toList

/-- A listing shows a name in the last cell of a row, without what fills it up. -/
def ListingShows (printed : String) (row : Nat) (name : String) : Prop :=
  trim ((lineAt printed (3 + row)).drop (lastStart printed)) = name.toList

/-- Every row of a table shows the name of its record, and rows look alike only for one name. -/
structure ShowsNames (shows : String → Nat → String → Prop) (printed : String)
    (records : List Record) : Prop where
  each : ∀ i (inside : i < records.length), shows printed i records[i].name
  apart : ∀ i j (inside : i < records.length) (inside' : j < records.length),
    lineAt printed (3 + i) = lineAt printed (3 + j) → records[i].name = records[j].name

/-- A name that is read as itself, blanks around it aside. -/
def Rich.Shows (rich : Rich) (name : String) : Prop :=
  ∃ t, rich.read name = .ok t ∧ trim t = name.toList

section Cells
variable {rich : Rich} {width : Nat} {line a b : List Char}

theorem fit_left (width : Nat) (s : List Char) :
    rich.fit .left width s = s ++ List.replicate (width - rich.cells s) ' ' := rfl

theorem blanks_replicate (n : Nat) : Blanks (List.replicate n ' ') := fun c member => by
  rw [List.eq_of_mem_replicate member]
  rfl

theorem trim_fit (width : Nat) (s : List Char) {r : List Char} (blanks : Blanks r) :
    trim (rich.fit .left width s ++ r) = trim s := by
  have right : Blanks (List.replicate (width - rich.cells s) ' ' ++ r) :=
    List.forall_mem_append.mpr ⟨blanks_replicate _, blanks⟩
  rw [fit_left, List.append_assoc]
  simpa using Text.trim_pad Text.blanks_nil right s

theorem trim_shaved {shaved s blanks : List Char} (blank : Blanks blanks) (same : shaved ++ blanks = s) :
    trim shaved = trim s := by
  have whole := Text.trim_pad Text.blanks_nil blank shaved
  rw [List.nil_append, same] at whole
  exact whole.symm

theorem prefix_of_filled {p : List Char} {c : Char} (solid : c ≠ ' ') {n : Nat}
    (front : p ++ [c] <+: b ++ List.replicate n ' ') : p ++ [c] <+: b := by
  rcases List.prefix_or_prefix_of_prefix front (List.prefix_append b _) with inside | ⟨rest, same⟩
  · exact inside
  · rw [← same, List.prefix_append_right_inj] at front
    rcases List.eq_nil_or_concat rest with none | ⟨rest, d, rfl⟩
    · rw [none, List.append_nil] at same
      exact same ▸ List.prefix_rfl
    · have last := congrArg List.getLast? same
      have blank : d = ' ' := List.eq_of_mem_replicate (front.subset (by simp))
      rw [blank] at last
      simp at last
      exact absurd last.symm solid

theorem lastStart_eq {printed : String} {front rest : List Char}
    (header : lineAt printed 1 = front ++ 'N' :: rest) (bare : 'N' ∉ front) :
    lastStart printed = front.length := by
  have clear : ∀ c ∈ front, (c != 'N') = true := by
    intro c member
    rw [bne_iff_ne]
    rintro rfl
    exact bare member
  rw [lastStart, header, List.takeWhile_append_of_pos clear]
  simp

variable (documented : rich.Documented)
include documented

theorem not_beyond {r r' : List Char} (fits : rich.cells b ≤ width)
    (same : rich.fit .left width a ++ ' ' :: '│' :: r = rich.fit .left width b ++ ' ' :: '│' :: r') :
    (rich.fit .left width b).length ≤ (rich.fit .left width a).length := by
  by_contra longer
  obtain ⟨z, more, behind⟩ : ∃ z, rich.fit .left width b = rich.fit .left width a ++ z ∧
      ' ' :: '│' :: r = z ++ ' ' :: '│' :: r' := by
    rcases List.append_eq_append_iff.mp same with found | ⟨z, shape, -⟩
    · exact found
    · rw [shape, List.length_append] at longer
      exact absurd (Nat.le_add_right _ _) longer
  have border : rich.fit .left width a ++ [' ', '│'] <+: rich.fit .left width b := by
    rw [more, List.prefix_append_right_inj]
    rcases z with - | ⟨c, - | ⟨d, z⟩⟩
    · rw [more, List.append_nil] at longer
      exact absurd le_rfl longer
    · cases behind
    · cases behind
      exact ⟨z, rfl⟩
  have within : rich.fit .left width a ++ [' ', '│'] <+: b := by
    have shape : rich.fit .left width a ++ [' ', '│'] = (rich.fit .left width a ++ [' ']) ++ ['│'] := by
      simp
    rw [shape] at border ⊢
    exact prefix_of_filled (by decide) border
  obtain ⟨rest, whole⟩ := within
  have slim : ∀ c ∈ List.replicate (width - rich.cells a) ' ' ++ [' ', '│'],
      (0x20 ≤ c.toNat ∧ c.toNat < 0x7F) ∨ c = '│' := by
    simp only [List.forall_mem_append, List.forall_mem_cons]
    refine ⟨fun c member => ?_, by decide, by decide, nofun⟩
    rw [List.eq_of_mem_replicate member]
    decide
  have wide := documented.behind a _ slim
  have front := documented.front (rich.fit .left width a ++ [' ', '│']) rest
  rw [whole, fit_left, List.append_assoc] at front
  rw [List.length_append, List.length_replicate] at wide
  simp only [List.length_cons, List.length_nil] at wide
  omega

/-- The borders of a first cell cannot be mistaken: a text that goes on behind them is too wide. -/
theorem FirstCell.unique (one : FirstCell rich width line a) (other : FirstCell rich width line b) :
    trim a = trim b := by
  obtain ⟨r, placed⟩ := one.placed
  obtain ⟨r', placed'⟩ := other.placed
  have same : rich.fit .left width a ++ ' ' :: '│' :: r = rich.fit .left width b ++ ' ' :: '│' :: r' := by
    rw [placed] at placed'
    exact (List.cons.inj (List.cons.inj placed').2).2
  have size := Nat.le_antisymm (not_beyond documented one.fits same.symm)
    (not_beyond documented other.fits same)
  have filled := (List.append_inj same size).1
  have left : trim (rich.fit .left width a ++ []) = trim a := trim_fit width a Text.blanks_nil
  have right : trim (rich.fit .left width b ++ []) = trim b := trim_fit width b Text.blanks_nil
  rw [← left, filled, right]

theorem firstWidth_eq {printed : String} {s rest : List Char}
    (header : lineAt printed 1 = '│' :: ' ' :: (rich.fit .left width s ++ ' ' :: '│' :: rest))
    (printable : Printable s) (fits : rich.cells s ≤ width) : firstWidth printed = width := by
  have clear : ∀ c ∈ rich.fit .left width s ++ [' '], (c != '│') = true := by
    intro c member
    rw [bne_iff_ne]
    rintro rfl
    rw [fit_left] at member
    simp only [List.mem_append, List.mem_replicate, List.mem_singleton] at member
    rcases member with (inside | ⟨-, blank⟩) | blank
    · exact absurd (printable _ inside).2 (by decide)
    · cases blank
    · cases blank
  have front : (rich.fit .left width s ++ ' ' :: '│' :: rest).takeWhile (· != '│') =
      rich.fit .left width s ++ [' '] := by
    rw [List.append_cons, List.takeWhile_append_of_pos clear]
    simp
  rw [firstWidth, header]
  show ((rich.fit .left width s ++ ' ' :: '│' :: rest).takeWhile (· != '│')).length - 1 = width
  rw [front, List.length_append, documented.length_fit printable fits]
  exact Nat.add_sub_cancel _ _

end Cells

section Tables
variable {rich : Rich} {r : Record} {records : List Record} {printed : String}

/-- A name that steers no layout and has no blanks around it, with an extension of that kind. -/
structure Tame (r : Record) : Prop where
  name : Calm r.name.toList
  extension : Calm r.extension.toList
  trimmed : trim r.name.toList = r.name.toList

variable (documented : rich.Documented)
include documented

theorem calm_results (tame : ∀ r ∈ records, Tame r)
    (fine : ∀ r ∈ records, Sized r ∧ rich.Readable r.name ∧ rich.Readable r.extension) :
    ∀ row ∈ records.map resultTexts, ∀ s ∈ row, Calm (rich.shown s) := by
  rw [List.forall_mem_map]
  intro r member s own
  obtain ⟨sized, readable⟩ := fine r member
  refine documented.calm s _ ((readable_resultTexts documented sized).mpr readable s own).read ?_
  simp only [resultTexts, List.mem_cons, List.not_mem_nil, or_false] at own
  rcases own with rfl | rfl | rfl | rfl
  · exact (tame r member).name
  · exact (dull_size sized).printable.calm
  · split
    · exact (by decide : Calm "(none)".toList)
    · exact (tame r member).extension
  · exact (dull_dateText _).printable.calm

theorem calm_listing (tame : ∀ r ∈ records, Tame r)
    (readable : ∀ r ∈ records, rich.Readable r.name) :
    ∀ row ∈ records.map listingRow, ∀ s ∈ row, Calm (rich.shown s) := by
  rw [List.forall_mem_map]
  intro r member s own
  rcases (List.mem_append (s := listingFront r) (t := [r.name])).mp own with front | name
  · rw [Rich.shown_of_read (read_listingFront documented r s front)]
    exact (printable_listingFront r s front).calm
  · obtain rfl := List.mem_singleton.mp name
    exact documented.calm _ _ (readable r member).read (tame r member).name

theorem firstCell_results {lines : List (List Char)} {shave : Nat → List Char → List Char}
    {behind : List Char}
    (lined : rich.Lined rounded resultColumns (records.map resultTexts) shave lines)
    (shape : printed.toList = lines.flatMap (· ++ ['\n']) ++ behind) {i : Nat}
    (inside : i < records.length) :
    ∃ text, FirstCell rich (firstWidth printed) (lineAt printed (3 + i)) text ∧
      trim text = trim (rich.shown records[i].name) := by
  have within : i < (records.map resultTexts).length := by simpa using inside
  obtain ⟨others, row⟩ : ∃ others, (records.map resultTexts)[i] = records[i].name :: others := by
    simp [resultTexts]
  obtain ⟨w, sized, cut⟩ : ∃ w sized, rich.sized resultColumns (records.map resultTexts) =
      (⟨"Name", .left⟩, w) :: sized := by
    simp [Rich.sized, resultColumns, List.mapIdx_cons]
  have header := lineAt_of_lines shape lined.solid lined.header
  have line := lineAt_of_lines shape lined.solid (lined.row i within)
  have headed := Rich.header_fits rich resultColumns (records.map resultTexts)
  have fits := Rich.text_fits rich resultColumns (List.getElem_mem within)
  rw [cut] at header headed line fits
  rw [row, List.zip_cons_cons, List.forall_mem_cons] at fits
  rw [row, List.zipWith_cons_cons] at line
  obtain ⟨blanks, blank, shaved⟩ := lined.shaved w (rich.shown records[i].name)
  have width : firstWidth printed = w := by
    rw [resultColumns, List.map_cons] at header
    obtain ⟨rest, titles⟩ := Rich.rowLine_first rich (e := rounded.row) (c := ⟨"Name", .left⟩)
      (w := w) (s := "Name".toList) rfl
    exact firstWidth_eq documented (header.trans titles) (by decide) (headed _ List.mem_cons_self)
  refine ⟨shave w (rich.shown records[i].name), ⟨?_, ?_⟩, trim_shaved blank shaved⟩
  · have front := documented.front (shave w (rich.shown records[i].name)) blanks
    rw [shaved] at front
    rw [width]
    exact Nat.le_trans front fits.1
  · rw [width, line]
    exact Rich.rowLine_first rich rfl

/-- The headers in front of the names are printable, so their line tells where the names begin. -/
theorem lastStart_listing {sized : List (Column × Nat)} {w : Nat}
    (titled : sized.map (·.1) = listingColumns.take 4)
    (headed : ∀ p ∈ sized, rich.cells p.1.header.toList ≤ p.2)
    (header : lineAt printed 1 = rich.rowLine plain.row (sized ++ [(⟨"Name", .left⟩, w)])
      (listingColumns.map fun c => c.header.toList)) :
    lastStart printed = Rich.frontWidth sized := by
  let titles := (listingColumns.take 4).map fun c => c.header.toList
  have own : titles = sized.map fun p => p.1.header.toList := by
    show (listingColumns.take 4).map _ = _
    rw [← titled, List.map_map]
    rfl
  have even : sized.length = titles.length := by rw [own, List.length_map]
  have printable : ∀ s ∈ titles, Printable s := by decide
  have bare : ∀ s ∈ titles, 'N' ∉ s := by decide
  have fits : ∀ p ∈ sized.zip titles, rich.cells p.2 ≤ p.1.2 := by
    rw [own]
    intro p listed
    obtain ⟨k, inside, rfl⟩ := List.mem_iff_getElem.mp listed
    simp only [List.getElem_zip, List.getElem_map]
    exact headed _ (List.getElem_mem _)
  have split : (listingColumns.map fun c => c.header.toList) = titles ++ ["Name".toList] := rfl
  rw [split, Rich.rowLine_last even] at header
  rw [lastStart_eq (header.trans rfl)
      (Rich.not_mem_frontLine bare (by decide) (by decide) (by decide)),
    documented.length_frontLine even printable fits]

/-- A text in front of a name is shaved to one that fits as well, and is as printable. -/
theorem shaved_listingFront {shave : Nat → List Char → List Char}
    (shaved : ∀ w s, ∃ blanks, Blanks blanks ∧ shave w s ++ blanks = s) (r : Record)
    {sized : List (Column × Nat)} {front : List (List Char)}
    (even : sized.length = (listingFront r).length)
    (fits : ∀ p ∈ sized.zip (listingFront r), rich.cells (rich.shown p.2) ≤ p.1.2)
    (same : front = List.zipWith (fun c s => shave c.2 (rich.shown s)) sized (listingFront r)) :
    sized.length = front.length ∧ (∀ s ∈ front, Printable s) ∧
      ∀ p ∈ sized.zip front, rich.cells p.2 ≤ p.1.2 := by
  subst same
  have each : ∀ p ∈ sized.zip (listingFront r),
      Printable (shave p.1.2 (rich.shown p.2)) ∧ rich.cells (shave p.1.2 (rich.shown p.2)) ≤ p.1.2 := by
    intro p listed
    have own := (List.of_mem_zip listed).2
    obtain ⟨blanks, -, same⟩ := shaved p.1.2 (rich.shown p.2)
    constructor
    · have printable := printable_listingFront r _ own
      rw [Rich.shown_of_read (read_listingFront documented r _ own)] at same ⊢
      rw [← same] at printable
      exact (printable_append.mp printable).1
    · have less := documented.front (shave p.1.2 (rich.shown p.2)) blanks
      rw [same] at less
      exact Nat.le_trans less (fits p listed)
  refine ⟨by rw [List.length_zipWith, ← even, Nat.min_self], fun s listed => ?_, fun p listed => ?_⟩
  · obtain ⟨p, member, rfl⟩ := Rich.of_mem_zipWith listed
    exact (each p member).1
  · obtain ⟨k, inRange, rfl⟩ := List.mem_iff_getElem.mp listed
    rw [List.length_zip, Nat.lt_min] at inRange
    have inFront : k < (listingFront r).length := even ▸ inRange.1
    have inSized := inRange.1
    have member : (sized[k], (listingFront r)[k]) ∈ sized.zip (listingFront r) :=
      List.mem_iff_getElem.mpr ⟨k, by rw [List.length_zip, ← even, Nat.min_self]; exact inSized, by simp⟩
    simp only [List.getElem_zip, List.getElem_zipWith]
    exact (each _ member).2

theorem lastCell_listing {lines : List (List Char)} {shave : Nat → List Char → List Char}
    (lined : rich.Lined plain listingColumns (records.map listingRow) shave lines)
    {behind : List Char} (shape : printed.toList = lines.flatMap (· ++ ['\n']) ++ behind) {i : Nat}
    (inside : i < records.length) :
    trim ((lineAt printed (3 + i)).drop (lastStart printed)) =
      trim (rich.shown records[i].name) := by
  have within : i < (records.map listingRow).length := by simpa using inside
  have row : (records.map listingRow)[i] = listingFront records[i] ++ [records[i].name] := by
    simp [listingRow, listingFront]
  obtain ⟨sized, w, cut, titled⟩ : ∃ sized w,
      rich.sized listingColumns (records.map listingRow) = sized ++ [(⟨"Name", .left⟩, w)] ∧
        sized.map (·.1) = listingColumns.take 4 := by
    simp only [Rich.sized, listingColumns, List.mapIdx_cons, List.mapIdx_nil, List.zip_cons_cons,
      List.zip_nil_right]
    exact ⟨[_, _, _, _], _, rfl, rfl⟩
  have header := lineAt_of_lines shape lined.solid lined.header
  have line := lineAt_of_lines shape lined.solid (lined.row i within)
  have headed := Rich.header_fits rich listingColumns (records.map listingRow)
  have fits := Rich.text_fits rich listingColumns (List.getElem_mem within)
  rw [cut] at header headed line fits
  have start : lastStart printed = Rich.frontWidth sized :=
    lastStart_listing documented titled (fun p listed => headed p (List.mem_append_left _ listed)) header
  have even : sized.length = (listingFront records[i]).length := by
    rw [← List.length_map (fun p : Column × Nat => p.1), titled]
    rfl
  rw [row, List.zip_append even, List.forall_mem_append] at fits
  rw [row, List.zipWith_append even] at line
  obtain ⟨length, printable, fronted⟩ :=
    shaved_listingFront documented lined.shaved records[i] even fits.1 rfl
  obtain ⟨blanks, blank, same⟩ := lined.shaved w (rich.shown records[i].name)
  have last : List.zipWith (fun c s => shave c.2 (rich.shown s)) [((⟨"Name", .left⟩ : Column), w)]
      [records[i].name] = [shave w (rich.shown records[i].name)] := rfl
  rw [line, start, last, Rich.rowLine_last length,
    ← documented.length_frontLine (e := plain.row) length printable fronted, List.drop_left,
    trim_fit _ _ (by decide)]
  exact trim_shaved blank same

omit documented in
/-- Where a row shows what is read of its name, every row shows its name just when each name is read as
itself. -/
theorem showsNames_iff {shows : String → Nat → String → Prop}
    (readable : ∀ r ∈ records, rich.Readable r.name)
    (reads : ∀ i (inside : i < records.length) name,
      shows printed i name ↔ trim (rich.shown records[i].name) = name.toList)
    (sees : ∀ i j name, lineAt printed (3 + i) = lineAt printed (3 + j) →
      shows printed i name → shows printed j name) :
    ShowsNames shows printed records ↔ ∀ r ∈ records, rich.Shows r.name := by
  have own : ∀ i (inside : i < records.length),
      shows printed i records[i].name ↔ rich.Shows records[i].name := fun i inside => by
    have read := (readable _ (List.getElem_mem inside)).read
    rw [reads i inside, Rich.Shows, read]
    simp
  constructor
  · intro all r member
    obtain ⟨i, inside, rfl⟩ := List.mem_iff_getElem.mp member
    exact (own i inside).mp (all.each i inside)
  · intro itself
    have each : ∀ i (inside : i < records.length), shows printed i records[i].name :=
      fun i inside => (own i inside).mpr (itself _ (List.getElem_mem inside))
    refine ⟨each, fun i j inside inside' alike => ?_⟩
    have both := sees i j _ alike (each i inside)
    rw [reads j inside'] at both
    have other := (reads j inside' _).mp (each j inside')
    exact String.toList_inj.mp (both.symm.trans other)

theorem lined_results (filled : records ≠ []) (tame : ∀ r ∈ records, Tame r)
    (fits : rich.Fits resultColumns (records.map resultTexts))
    (ok : results rich records = .ok printed) : ∃ shave lines behind,
      printed.toList = lines.flatMap (· ++ ['\n']) ++ behind ∧
        rich.Lined rounded resultColumns (records.map resultTexts) shave lines := by
  have fine := (results_printed_iff documented filled).mp ⟨printed, ok⟩
  obtain ⟨_, table, print, rfl⟩ := (results_eq_ok_iff filled).mp ok
  obtain ⟨shave, lines, shape, lined⟩ := documented.lined _ (by simp) _ _ _ (regular_results filled)
    fits (calm_results documented tame fine) print
  exact ⟨shave, lines, _, by rw [String.toList_append, shape], lined⟩

theorem lined_listing (filled : records ≠ []) (tame : ∀ r ∈ records, Tame r)
    (fits : rich.Fits listingColumns (records.map listingRow))
    (ok : listing rich records = .ok printed) : ∃ shave lines behind,
      printed.toList = lines.flatMap (· ++ ['\n']) ++ behind ∧
        rich.Lined plain listingColumns (records.map listingRow) shave lines := by
  have readable := (listing_printed_iff documented filled).mp ⟨printed, ok⟩
  obtain ⟨shave, lines, shape, lined⟩ := documented.lined _ (by simp) _ _ _ (regular_listing filled)
    fits (calm_listing documented tame readable) (listing_eq_ok_iff.mp ok)
  exact ⟨shave, lines, [], by rw [shape, List.append_nil], lined⟩

omit documented in
theorem rows_alike {f : Frame} {columns : List Column} {rows : List (List String)}
    {shave : Nat → List Char → List Char} {lines : List (List Char)} {behind : List Char}
    (shape : printed.toList = lines.flatMap (· ++ ['\n']) ++ behind)
    (lined : rich.Lined f columns rows shave lines) {i j : Nat} (inside : i < rows.length)
    (inside' : j < rows.length) (same : rows[i].map rich.shown = rows[j].map rich.shown) :
    lineAt printed (3 + i) = lineAt printed (3 + j) := by
  have set (row : List String) : List.zipWith (fun c s => shave c.2 (rich.shown s))
      (rich.sized columns rows) row =
        List.zipWith (fun c t => shave c.2 t) (rich.sized columns rows) (row.map rich.shown) :=
    List.zipWith_map_right.symm
  rw [lineAt_of_lines shape lined.solid (lined.row i inside),
    lineAt_of_lines shape lined.solid (lined.row j inside'), set, set, same]

theorem results_show_iff (filled : records ≠ []) (tame : ∀ r ∈ records, Tame r)
    (fits : rich.Fits resultColumns (records.map resultTexts))
    (ok : results rich records = .ok printed) :
    ShowsNames (ResultShows rich) printed records ↔ ∀ r ∈ records, rich.Shows r.name := by
  have fine := (results_printed_iff documented filled).mp ⟨printed, ok⟩
  obtain ⟨shave, lines, behind, shape, lined⟩ := lined_results documented filled tame fits ok
  refine showsNames_iff (fun r member => (fine r member).2.1) (fun i inside name => ?_) ?_
  · obtain ⟨text, cell, same⟩ := firstCell_results documented lined shape inside
    constructor
    · rintro ⟨text', cell', named⟩
      rw [← same, cell.unique documented cell', named]
    · exact fun named => ⟨text, cell, same.trans named⟩
  · intro i j name alike shown
    rwa [ResultShows, ← alike]

theorem listing_shows_iff (filled : records ≠ []) (tame : ∀ r ∈ records, Tame r)
    (fits : rich.Fits listingColumns (records.map listingRow))
    (ok : listing rich records = .ok printed) :
    ShowsNames ListingShows printed records ↔ ∀ r ∈ records, rich.Shows r.name := by
  have readable := (listing_printed_iff documented filled).mp ⟨printed, ok⟩
  obtain ⟨shave, lines, behind, shape, lined⟩ := lined_listing documented filled tame fits ok
  refine showsNames_iff readable (fun i inside name => ?_) ?_
  · rw [ListingShows, lastCell_listing documented lined shape inside]
  · intro i j name alike shown
    rwa [ListingShows, ← alike]

/-- A name without a bracket and a colon is shown; a style in brackets keeps a name from it, and so
does the end of a style, which cannot be read at all. -/
theorem Rich.Documented.shows_plain {name : String} (calm : Calm name.toList)
    (bracket : '[' ∉ name.toList) (colon : ':' ∉ name.toList)
    (trimmed : trim name.toList = name.toList) : rich.Shows name := by
  refine ⟨_, documented.bare name calm bracket ?_, trimmed⟩
  rw [codes_of_noColon colon]
  exact nofun

theorem Rich.Documented.hides_styled {x tag y : List Char} (left : Rich.Untouched x)
    (style : Rich.StyleName tag) (right : Rich.Untouched y) :
    ¬ rich.Shows (String.ofList (x ++ '[' :: (tag ++ ']' :: y))) := by
  rintro ⟨t, read, named⟩
  rw [documented.opening x tag y left style right] at read
  cases read
  obtain ⟨lead, trail, -, -, padded⟩ := Text.exists_trim (x ++ y)
  have bracket : '[' ∈ trim (x ++ y) := by simp [named]
  have inside : '[' ∈ x ++ y := by
    rw [padded]
    simp [bracket]
  rcases List.mem_append.mp inside with member | member
  · exact left.noBracket member
  · exact right.noBracket member

end Tables

/-- Both tables are printed with every name as it is just when the library reads each name as itself and,
for results, every size can be shown and every extension read. Then rows with different names never look
alike. A name without brackets and colons is read as itself; one with a style in brackets is not, and
one with the end of a style in brackets cannot be read. -/
theorem names_shown_iff {rich : Rich} (documented : rich.Documented) {records : List Record}
    (filled : records ≠ []) (tame : ∀ r ∈ records, Tame r) :
    (rich.Fits resultColumns (records.map resultTexts) →
      ((∃ printed, results rich records = .ok printed ∧ ShowsNames (ResultShows rich) printed records) ↔
        ∀ r ∈ records, rich.Shows r.name ∧ Sized r ∧ rich.Readable r.extension)) ∧
    (rich.Fits listingColumns (records.map listingRow) →
      ((∃ printed, listing rich records = .ok printed ∧ ShowsNames ListingShows printed records) ↔
        ∀ r ∈ records, rich.Shows r.name)) ∧
    (∀ name : String, Calm name.toList → '[' ∉ name.toList → ':' ∉ name.toList →
      trim name.toList = name.toList → rich.Shows name) ∧
    ∀ x tag y, Rich.Untouched x → Rich.StyleName tag → Rich.Untouched y →
      ¬ rich.Shows (String.ofList (x ++ '[' :: (tag ++ ']' :: y))) ∧
        ¬ rich.Readable (String.ofList (x ++ '[' :: '/' :: (tag ++ ']' :: y))) := by
  refine ⟨fun fits => ?_, fun fits => ?_, fun name => documented.shows_plain,
    fun x tag y left style right => ⟨documented.hides_styled left style right,
      documented.closing x tag y left style right⟩⟩
  · constructor
    · rintro ⟨printed, ok, all⟩ r member
      have fine := (results_printed_iff documented filled).mp ⟨printed, ok⟩ r member
      exact ⟨(results_show_iff documented filled tame fits ok).mp all r member, fine.1, fine.2.2⟩
    · intro fine
      obtain ⟨printed, ok⟩ := (results_printed_iff documented filled).mpr fun r member => by
        obtain ⟨⟨t, read, -⟩, sized, extension⟩ := fine r member
        exact ⟨sized, ⟨t, read⟩, extension⟩
      exact ⟨printed, ok,
        (results_show_iff documented filled tame fits ok).mpr fun r member => (fine r member).1⟩
  · constructor
    · rintro ⟨printed, ok, all⟩
      exact (listing_shows_iff documented filled tame fits ok).mp all
    · intro itself
      obtain ⟨printed, ok⟩ := (listing_printed_iff documented filled).mpr fun r member => by
        obtain ⟨t, read, -⟩ := itself r member
        exact ⟨t, read⟩
      exact ⟨printed, ok, (listing_shows_iff documented filled tame fits ok).mpr itself⟩

def named (name extension : String) : Record :=
  { name, path := "/work/" ++ name, size := 1536, extension }

theorem sized_named (name extension : String) : Sized (named name extension) :=
  ⟨"1.50", (by decide +kernel : kibibytes 1536 = .ok "1.50")⟩

theorem plain_names_are_shown :
    let records := [named "[A] 日本: a.TXT" ".txt", named "x:y" ""]
    (∃ printed, results .console records = .ok printed ∧
      ShowsNames (ResultShows .console) printed records) ∧
    (∃ printed, listing .console records = .ok printed ∧ ShowsNames ListingShows printed records) ∧
    Rich.console.Shows "a b.txt" ∧ ¬ Rich.console.Shows "a[b].txt" ∧ ¬ Rich.console.Readable "a[/b].txt" := by
  intro records
  have tame : ∀ r ∈ records, Tame r := by
    simp only [records, List.forall_mem_cons]
    exact ⟨⟨by decide, by decide, by decide⟩, ⟨by decide, by decide, by decide⟩, nofun⟩
  have itself : ∀ r ∈ records, Rich.console.Shows r.name := fun r member =>
    ⟨r.name.toList, console_read.mpr
      ((by decide +kernel : ∀ r ∈ records, readMarkup r.name.toList = .ok r.name.toList) r member),
      (tame r member).trimmed⟩
  have fine : ∀ r ∈ records, Rich.console.Shows r.name ∧ Sized r ∧ Rich.console.Readable r.extension := by
    simp only [records, List.forall_mem_cons] at itself ⊢
    exact ⟨⟨itself.1, sized_named _ _, ⟨_, console_documented.read_dull (by decide)⟩⟩,
      ⟨itself.2.1, sized_named _ _, ⟨_, console_documented.read_dull (by decide)⟩⟩, nofun⟩
  obtain ⟨result, list, plain, styled⟩ :=
    names_shown_iff console_documented (List.cons_ne_nil _ _) tame
  obtain ⟨hidden, unreadable⟩ := styled "a".toList "b".toList ".txt".toList (by decide) (by decide)
    (by decide)
  exact ⟨(result (by decide +kernel)).mpr fine, (list (by decide +kernel)).mpr itself,
    plain "a b.txt" (by decide) (by decide) (by decide) (by decide), hidden, unreadable⟩

/-- A part of a name in brackets is taken for a style, so that two files look alike; and with other
names in brackets a table is not printed at all. -/
theorem bracketed_names_look_alike :
    let records := [named "a[b].txt" ".txt", named "a.txt" ".txt"]
    Rich.console.Documented ∧ (∀ r ∈ records, Tame r) ∧
    Rich.console.Fits resultColumns (records.map resultTexts) ∧
    Rich.console.Fits listingColumns (records.map listingRow) ∧
    (∃ printed, results .console records = .ok printed ∧ lineAt printed 3 = lineAt printed 4 ∧
      ¬ ShowsNames (ResultShows .console) printed records) ∧
    (∃ printed, listing .console records = .ok printed ∧ lineAt printed 3 = lineAt printed 4 ∧
      ¬ ShowsNames ListingShows printed records) ∧
    Tame (named "[/b]" "") ∧ (∀ printed, results .console [named "[/b]" ""] ≠ .ok printed) ∧
      ∀ printed, listing .console [named "[/b]" ""] ≠ .ok printed := by
  intro records
  have tame : ∀ r ∈ records, Tame r := by
    simp only [records, List.forall_mem_cons]
    exact ⟨⟨by decide, by decide, by decide⟩, ⟨by decide, by decide, by decide⟩, nofun⟩
  have filled : records ≠ [] := List.cons_ne_nil _ _
  have dull : Rich.console.read "a.txt" = .ok "a.txt".toList := console_documented.read_dull (by decide)
  have styled : Rich.console.read "a[b].txt" = .ok "a.txt".toList :=
    console_documented.opening "a".toList "b".toList ".txt".toList (by decide) (by decide) (by decide)
  have alike : Rich.console.shown "a[b].txt" = Rich.console.shown "a.txt" := by
    rw [Rich.shown_of_read styled, Rich.shown_of_read dull]
  have readable : ∀ r ∈ records, Rich.console.Readable r.name := by
    simp only [records, List.forall_mem_cons]
    exact ⟨⟨_, styled⟩, ⟨_, dull⟩, nofun⟩
  have extension : Rich.console.Readable ".txt" := ⟨_, console_documented.read_dull (by decide)⟩
  have fine : ∀ r ∈ records,
      Sized r ∧ Rich.console.Readable r.name ∧ Rich.console.Readable r.extension := by
    simp only [records, List.forall_mem_cons] at readable ⊢
    exact ⟨⟨sized_named _ _, readable.1, extension⟩, ⟨sized_named _ _, readable.2.1, extension⟩, nofun⟩
  have differ : ∀ {shows printed}, lineAt printed 3 = lineAt printed 4 →
      ¬ ShowsNames shows printed records := fun same all =>
    (by decide : "a[b].txt" ≠ "a.txt") (all.apart 0 1 (by decide) (by decide) same)
  have fits : Rich.console.Fits resultColumns (records.map resultTexts) := by decide +kernel
  have fits' : Rich.console.Fits listingColumns (records.map listingRow) := by decide +kernel
  have fault : ¬ Rich.console.Readable "[/b]" :=
    console_documented.closing [] "b".toList [] (by decide) (by decide) (by decide)
  have single := List.cons_ne_nil (named "[/b]" "") []
  refine ⟨console_documented, tame, fits, fits', ?_, ?_, ⟨by decide, by decide, by decide⟩, ?_, ?_⟩
  · obtain ⟨printed, ok⟩ := (results_printed_iff console_documented filled).mpr fine
    obtain ⟨shave, lines, behind, shape, lined⟩ := lined_results console_documented filled tame fits ok
    have same := rows_alike shape lined (i := 0) (j := 1) (by decide) (by decide)
      (congrArg (· :: _) alike)
    exact ⟨printed, ok, same, differ same⟩
  · obtain ⟨printed, ok⟩ := (listing_printed_iff console_documented filled).mpr readable
    obtain ⟨shave, lines, behind, shape, lined⟩ := lined_listing console_documented filled tame fits' ok
    have same := rows_alike shape lined (i := 0) (j := 1) (by decide) (by decide)
      (congrArg (fun name => (listingFront (named "a.txt" ".txt")).map Rich.console.shown ++ [name]) alike)
    exact ⟨printed, ok, same, differ same⟩
  · exact fun printed ok => fault
      ((results_printed_iff console_documented single).mp ⟨printed, ok⟩ _ List.mem_cons_self).2.1
  · exact fun printed ok => fault
      ((listing_printed_iff console_documented single).mp ⟨printed, ok⟩ _ List.mem_cons_self)

end FileQuery.Table
