import FileQuery.Proofs.Table.Markup
import FileQuery.Proofs.Table.Wrap

/-! The console that is spelled out here does what a library is documented to do. Its rows of calm texts
take one line each, below the three of the head. -/
set_option autoImplicit false
namespace FileQuery.Table

open Text (cells trim)

/-! What its cells are read as. -/

section Cells
variable {rows : List (List String)} {n : Nat}

theorem foldl_max_same {ns : List Nat} (same : ∀ m ∈ ns, m = n) : ns.foldl max n = n := by
  induction ns with
  | nil => rfl
  | cons m ns ih =>
      obtain ⟨rfl, rest⟩ := List.forall_mem_cons.mp same
      rw [List.foldl_cons, Nat.max_self, ih rest]

theorem width_of_even (even : ∀ row ∈ rows, row.length = n) (filled : rows ≠ []) :
    (rows.map List.length).foldl max 0 = n := by
  obtain ⟨row, rest, rfl⟩ := List.exists_cons_of_ne_nil filled
  obtain ⟨rfl, others⟩ := List.forall_mem_cons.mp even
  rw [List.map_cons, List.foldl_cons, Nat.zero_max]
  exact foldl_max_same (by simpa using others)

theorem console_read {s : String} {t : List Char} :
    Rich.console.read s = .ok t ↔ readMarkup s.toList = .ok t := by
  show (readMarkup s.toList).mapError (·.message) = .ok t ↔ _
  cases readMarkup s.toList <;> simp [Except.mapError]

theorem readMarkup_shown {s : String} (readable : Rich.console.Readable s) :
    readMarkup s.toList = .ok (Rich.console.shown s) :=
  console_read.mp readable.read

theorem transposed (even : ∀ row ∈ rows, row.length = n) :
    ((List.range rows.length).map fun i =>
      ((List.range n).map fun k => rows.map fun r => Rich.console.shown (r.getD k "")).map fun c =>
        c.getD i []) = rows.map (·.map Rich.console.shown) := by
  refine List.ext_getElem (by simp) fun i left right => ?_
  have inside : i < rows.length := by simpa using right
  have width := even _ (List.getElem_mem inside)
  refine List.ext_getElem (by simp [width]) fun k left' right' => ?_
  have within : k < rows[i].length := by simpa using right'
  simp [inside, within]

theorem readCells_ok_iff (even : ∀ row ∈ rows, row.length = n) (filled : rows ≠ [])
    {read : List (List (List Char))} :
    readCells rows = .ok read ↔ (∀ row ∈ rows, ∀ s ∈ row, Rich.console.Readable s) ∧
      read = rows.map (·.map Rich.console.shown) := by
  have whole : (∀ row ∈ rows, ∀ s ∈ row, Rich.console.Readable s) →
      readCells rows = .ok (rows.map (·.map Rich.console.shown)) := fun readable => by
    have column : ∀ k ∈ List.range n, (rows.mapM fun r => readMarkup (r.getD k "").toList) =
        .ok (rows.map fun r => Rich.console.shown (r.getD k "")) := by
      intro k inRange
      refine mapM_eq_ok fun row member => readMarkup_shown ?_
      have inside : k < row.length := by
        rw [even row member]
        exact List.mem_range.mp inRange
      rw [List.getD_eq_getElem _ _ inside]
      exact readable row member _ (List.getElem_mem inside)
    rw [readCells]
    simp only [width_of_even even filled, mapM_eq_ok column]
    exact congrArg Except.ok (transposed even)
  constructor
  · intro ok
    have readable : ∀ row ∈ rows, ∀ s ∈ row, Rich.console.Readable s := by
      intro row member s cell
      obtain ⟨k, inside, rfl⟩ := List.mem_iff_getElem.mp cell
      rw [readCells] at ok
      simp only [width_of_even even filled] at ok
      obtain ⟨columns, all, -⟩ := of_bind_eq_ok ok
      have inRange : k ∈ List.range n := List.mem_range.mpr (even row member ▸ inside)
      obtain ⟨column, one⟩ := each_of_mapM_eq_ok all k inRange
      obtain ⟨t, ok⟩ := each_of_mapM_eq_ok one row member
      rw [List.getD_eq_getElem _ _ inside] at ok
      exact ⟨t, console_read.mpr ok⟩
    rw [whole readable] at ok
    cases ok
    exact ⟨readable, rfl⟩
  · rintro ⟨readable, rfl⟩
    exact whole readable

theorem console_print_iff {f : Frame} {columns : List Column} {table : String}
    (regular : Rich.Regular columns rows) : Rich.console.print f columns rows = .ok table ↔
      (∀ row ∈ rows, ∀ s ∈ row, Rich.console.Readable s) ∧
        table = String.ofList (grid f columns (rows.map (·.map Rich.console.shown))) := by
  have cells := @readCells_ok_iff rows columns.length regular.even regular.filled
  have same : Rich.console.print f columns rows = printGrid f columns rows := rfl
  rw [same, printGrid]
  cases read : readCells rows with
  | error e =>
      refine iff_of_false nofun ?_
      rintro ⟨readable, -⟩
      rw [cells.mpr ⟨readable, rfl⟩] at read
      cases read
  | ok out =>
      obtain ⟨readable, rfl⟩ := cells.mp read
      simp only [Except.mapError, bind, Except.bind, pure, Except.pure, Except.ok.injEq,
        and_iff_right readable]
      exact eq_comm

end Cells

/-! The lines of its tables. -/

def frameBody (e : Edge) (widths : List Nat) : List Char :=
  e.left :: List.intercalate [e.between] (widths.map fun w => List.replicate (w + 2) e.fill) ++
    [e.right]

/-- The texts of a row as they stand in its line. -/
def setRow (sized : List (Column × Nat)) (row : List String) : List (List Char) :=
  List.zipWith (fun c s => dropExcess c.2 (Rich.console.shown s)) sized row

def gridLines (f : Frame) (columns : List Column) (rows : List (List String)) : List (List Char) :=
  let sized := Rich.console.sized columns rows
  frameBody f.top (sized.map (·.2)) ::
    Rich.console.rowLine f.row sized (columns.map fun c => c.header.toList) ::
    frameBody f.rule (sized.map (·.2)) ::
    (rows.map (fun row => Rich.console.rowLine f.row sized (setRow sized row)) ++
      [frameBody f.bottom (sized.map (·.2))])

section Lines
variable {f : Frame} {e : Edge} {columns : List Column} {rows : List (List String)}

theorem height_single (ls : List (List Char)) :
    ((ls.map fun s => [s]).map List.length).foldl max 1 = 1 := by
  induction ls with
  | nil => rfl
  | cons l ls ih => simpa using ih

theorem textLine_eq (e : Edge) (sized : List (Column × Nat)) (row : List (List Char)) :
    textLine e sized row = Rich.console.rowLine e sized row ++ ['\n'] := by
  rw [Rich.rowLine, List.append_assoc]
  rfl

theorem cellLines_row {sized : List (Column × Nat)} {row : List String}
    (calm : ∀ s ∈ row, Calm (Rich.console.shown s))
    (fits : ∀ p ∈ sized.zip row, cells (Rich.console.shown p.2) ≤ p.1.2) :
    List.zipWith (fun c s => cellLines c.2 s) sized (row.map Rich.console.shown) =
      (setRow sized row).map fun s => [s] := by
  induction sized generalizing row with
  | nil => rfl
  | cons c sized ih =>
      cases row with
      | nil => rfl
      | cons s row =>
          obtain ⟨own, others⟩ := List.forall_mem_cons.mp calm
          rw [List.zip_cons_cons, List.forall_mem_cons] at fits
          rw [List.map_cons, List.zipWith_cons_cons, cellLines_calm own fits.1, ih others fits.2]
          rfl

theorem rowLines_calm {sized : List (Column × Nat)} {row : List String}
    (calm : ∀ s ∈ row, Calm (Rich.console.shown s))
    (fits : ∀ p ∈ sized.zip row, cells (Rich.console.shown p.2) ≤ p.1.2) (e : Edge) :
    rowLines e sized (row.map Rich.console.shown) =
      Rich.console.rowLine e sized (setRow sized row) ++ ['\n'] := by
  have firsts : ((setRow sized row).map fun s => [s]).map (fun ls => ls.getD 0 []) =
      setRow sized row := by
    rw [List.map_map]
    exact List.map_id _
  simp only [rowLines, cellLines_row calm fits]
  rw [height_single, List.range_one, List.flatMap_singleton, firsts]
  exact textLine_eq e sized _

theorem widths_eq (calm : ∀ row ∈ rows, ∀ s ∈ row, Calm (Rich.console.shown s)) :
    (columns.mapIdx fun k c => ((rows.map (·.map Rich.console.shown)).map fun r =>
      askedWidth (r.getD k [])).foldl max (cells c.header.toList)) =
        (Rich.console.sized columns rows).map (·.2) := by
  have nothing : Rich.console.shown "" = [] := Rich.shown_of_read
    (console_read.mpr (by decide +kernel : readMarkup "".toList = .ok []))
  have asked (k : Nat) : (rows.map (·.map Rich.console.shown)).map (fun r => askedWidth (r.getD k [])) =
      rows.map fun r => cells (Rich.console.shown (r.getD k "")) := by
    rw [List.map_map]
    refine List.map_congr_left fun row member => ?_
    have at_k : (row.map Rich.console.shown).getD k [] = Rich.console.shown (row.getD k "") := by
      rw [← nothing, List.getD_map]
    show askedWidth ((row.map Rich.console.shown).getD k []) = _
    rw [at_k]
    refine askedWidth_calm ?_
    by_cases inside : k < row.length
    · rw [List.getD_eq_getElem _ _ inside]
      exact calm row member _ (List.getElem_mem inside)
    · rw [List.getD_eq_default _ _ (Nat.not_lt.mp inside), nothing]
      exact nofun
  simp only [asked]
  exact (List.map_snd_zip (by simp)).symm

theorem grid_calm (calm : ∀ row ∈ rows, ∀ s ∈ row, Calm (Rich.console.shown s)) :
    grid f columns (rows.map (·.map Rich.console.shown)) =
      (gridLines f columns rows).flatMap (· ++ ['\n']) := by
  have body : (rows.map (·.map Rich.console.shown)).flatMap
      (rowLines f.row (Rich.console.sized columns rows)) =
      (rows.map fun row => Rich.console.rowLine f.row (Rich.console.sized columns rows)
        (setRow (Rich.console.sized columns rows) row)).flatMap (· ++ ['\n']) := by
    rw [List.flatMap_map, List.flatMap_map]
    refine List.flatMap_congr fun row member => ?_
    exact rowLines_calm (calm row member) (Rich.text_fits Rich.console columns member) f.row
  have zipped : columns.zip ((Rich.console.sized columns rows).map (·.2)) =
      Rich.console.sized columns rows := by
    conv_rhs => rw [Rich.sized]
    rw [Rich.sized, List.map_snd_zip (by simp)]
  simp only [grid, gridLines, widths_eq calm, zipped, body, textLine_eq]
  simp [frameLine, frameBody]

end Lines

/-! No line has an end inside. -/

section Ends
variable {f : Frame} {e : Edge} {columns : List Column} {rows : List (List String)}

/-- No character of a line of the frame ends it. -/
def Edge.Solid (e : Edge) : Prop := '\n' ∉ [e.left, e.fill, e.between, e.right]

instance (e : Edge) : Decidable e.Solid := inferInstanceAs (Decidable (_ ∉ _))

theorem noFeed_intercalate {sep : List Char} {ls : List (List Char)} (apart : '\n' ∉ sep)
    (each : ∀ l ∈ ls, '\n' ∉ l) : '\n' ∉ sep.intercalate ls := by
  induction ls with
  | nil => simp
  | cons l ls ih =>
      obtain ⟨own, rest⟩ := List.forall_mem_cons.mp each
      cases ls with
      | nil => simpa using own
      | cons l' ls =>
          rw [List.intercalate_cons_cons, List.mem_append, List.mem_append, not_or, not_or]
          exact ⟨⟨own, apart⟩, ih rest⟩

theorem noFeed_frameBody (solid : e.Solid) (widths : List Nat) : '\n' ∉ frameBody e widths := by
  simp only [Edge.Solid, List.mem_cons, List.not_mem_nil, or_false, not_or] at solid
  obtain ⟨left, fill, between, right⟩ := solid
  simp only [frameBody, List.mem_append, List.mem_cons, List.not_mem_nil, or_false, not_or]
  refine ⟨⟨left, noFeed_intercalate (by simpa using between) fun l listed => ?_⟩, right⟩
  obtain ⟨w, -, rfl⟩ := List.mem_map.mp listed
  exact fun member => fill (List.eq_of_mem_replicate member)

theorem noFeed_rowLine (solid : e.Solid) {row : List (List Char)} (each : ∀ s ∈ row, '\n' ∉ s)
    (sized : List (Column × Nat)) : '\n' ∉ Rich.console.rowLine e sized row := by
  simp only [Edge.Solid, List.mem_cons, List.not_mem_nil, or_false, not_or] at solid
  obtain ⟨left, -, between, right⟩ := solid
  simp only [Rich.rowLine, List.mem_append, List.mem_cons, List.not_mem_nil, or_false, not_or]
  refine ⟨⟨left, noFeed_intercalate (by simpa using between) fun l listed => ?_⟩, right⟩
  obtain ⟨p, member, rfl⟩ := Rich.of_mem_zipWith listed
  have own : '\n' ∉ Rich.console.fit p.1.1.align p.1.2 p.2 :=
    Rich.not_mem_fit (each p.2 (List.of_mem_zip member).2) (by decide) p.1.1.align p.1.2
  simpa using own

theorem noFeed_setRow {sized : List (Column × Nat)} {row : List String}
    (calm : ∀ s ∈ row, Calm (Rich.console.shown s)) : ∀ s ∈ setRow sized row, '\n' ∉ s := by
  intro s listed
  rw [setRow] at listed
  obtain ⟨p, member, rfl⟩ := Rich.of_mem_zipWith listed
  have own := (calm p.2 (List.of_mem_zip member).2).not_mem (c := '\n') rfl
  exact fun inside => own ((dropExcess_front _ _).subset inside)

theorem lined_gridLines (solid : ∀ e ∈ [f.top, f.row, f.rule, f.bottom], e.Solid)
    (regular : Rich.Regular columns rows)
    (calm : ∀ row ∈ rows, ∀ s ∈ row, Calm (Rich.console.shown s)) :
    Rich.console.Lined f columns rows dropExcess (gridLines f columns rows) where
  solid := by
    intro l listed
    simp only [gridLines, List.mem_cons, List.mem_append, List.mem_map, List.not_mem_nil,
      or_false] at listed
    rcases listed with rfl | rfl | rfl | ⟨row, member, rfl⟩ | rfl
    · exact noFeed_frameBody (solid _ (by simp)) _
    · refine noFeed_rowLine (solid _ (by simp)) (fun s named => ?_) _
      obtain ⟨c, listed, rfl⟩ := List.mem_map.mp named
      exact (regular.headers c listed).printable.calm.not_mem rfl
    · exact noFeed_frameBody (solid _ (by simp)) _
    · exact noFeed_rowLine (solid _ (by simp)) (noFeed_setRow (calm row member)) _
    · exact noFeed_frameBody (solid _ (by simp)) _
  header := rfl
  shaved := exists_dropExcess
  row i inside := by
    simp [gridLines, Nat.add_comm 3 i, List.getElem?_append_left, inside, setRow]

end Ends

theorem console_documented : Rich.console.Documented where
  bare s _ bracket numbers := by
    rw [console_read, readMarkup_bare bracket, replaceEmoji_eq_self]
    intro name listed
    obtain ⟨n, small, rfl⟩ := numbers name listed
    exact not_isEmoji_number small
  opening x tag y left style right := by
    rw [console_read, String.toList_ofList]
    exact readMarkup_opening left style right
  closing x tag y left style _ := by
    rintro ⟨t, read⟩
    obtain ⟨e, stops⟩ := readMarkup_closing (y := y) left style
    rw [console_read, String.toList_ofList] at read
    exact absurd (stops.symm.trans read) nofun
  calm s t read := calm_of_readMarkup (console_read.mp read)
  narrow s printable := Text.cells_narrow fun c member =>
    Text.narrow_of_ascii (printable c member).1 (printable c member).2
  front := Text.cells_le_append
  behind a s slim := Text.cells_add_narrow_le a fun c member => by
    rcases slim c member with ascii | rfl
    · exact Text.narrow_of_ascii ascii.1 ascii.2
    · decide +kernel
  prints f columns rows regular := by
    simp only [console_print_iff regular]
    exact ⟨fun ⟨_, readable, _⟩ => readable, fun readable => ⟨_, readable, rfl⟩⟩
  lined f known columns rows table regular _ calm print := by
    obtain ⟨-, rfl⟩ := (console_print_iff regular).mp print
    have solid : ∀ e ∈ [f.top, f.row, f.rule, f.bottom], e.Solid := by
      rcases List.mem_pair.mp known with rfl | rfl <;> decide
    exact ⟨dropExcess, gridLines f columns rows, by rw [String.toList_ofList, grid_calm calm],
      lined_gridLines solid regular calm⟩

end FileQuery.Table
