import FileQuery.Proofs.Instant.Literal
import FileQuery.Proofs.Table.Rich
import FileQuery.Table.Records

/-! When the records of a table are printed, and what its texts are read as. -/
set_option autoImplicit false
namespace FileQuery.Table

/-! Texts in the columns beside the names. -/

section Dull
variable {s : List Char}

theorem dull_toString (n : Int) : Dull (toString n).toList := by
  have digits : Dull (Text.digitsOf 10 n.natAbs) :=
    dull_plain le_rfl (Text.plain_digitsOf (by decide) le_rfl _)
  rw [Text.toList_toString]
  split
  · exact digits
  · exact dull_append.mpr ⟨(by decide : Dull ['-']), digits⟩

theorem dull_padded (width n : Nat) : Dull (Text.padded width n).toList :=
  dull_plain le_rfl (Text.plain_padded width n)

theorem dull_kibibytes {size : Int} {s : String} (ok : kibibytes size = .ok s) : Dull s.toList := by
  simp only [kibibytes] at ok
  split at ok
  · cases ok
  · cases ok
    simp only [String.toList_append, dull_append]
    refine ⟨⟨⟨?_, ?_⟩, by decide⟩, dull_padded _ _⟩
    · split <;> decide
    · rw [Nat.toString_eq_repr, Nat.toList_repr]
      exact dull_plain le_rfl (Text.plain_digitsOf (by decide) le_rfl _)

theorem dull_dateText (d : Date) : Dull (DateTime.dateText d).toList := by
  simp only [DateTime.dateText, String.toList_append, dull_append]
  exact ⟨⟨⟨⟨dull_padded _ _, by decide⟩, dull_padded _ _⟩, by decide⟩, dull_padded _ _⟩

theorem dull_formatPermissions (mode : Int) : Dull (formatPermissions mode).toList := by
  rw [formatPermissions, Text.octal, String.toList_ofList]
  exact dull_plain (by decide) (Text.plain_zeros (by decide) (by decide) _ _)

end Dull

/-! A time of day has colons, with two digits between those of a pair. -/

section Times
variable (i : Instant)

/-- The parts of a time of day: what stands before, between and behind its first two colons. -/
theorem toList_isoSeconds : ∃ front minutes back : List Char, Dull front ∧
    minutes = (Text.padded 2 ((DateTime.ofInstant i).clock / 1000000 / 60 % 60)).toList ∧ Dull back ∧
      i.isoSeconds.toList = front ++ ':' :: (minutes ++ ':' :: (back ++ [':', '0', '0'])) := by
  let t := DateTime.ofInstant i
  have offset : (DateTime.offsetText t.offset).toList = DateTime.utcChars :=
    (by decide : (DateTime.offsetText 0).toList = DateTime.utcChars)
  refine ⟨(DateTime.dateText t.date).toList ++ 'T' :: (Text.padded 2 (t.clock / 1000000 / 3600)).toList,
    _, (Text.padded 2 (t.clock / 1000000 % 60)).toList ++ ['+', '0', '0'], ?_, rfl, ?_, ?_⟩
  · exact dull_append.mpr ⟨dull_dateText _, dull_append.mpr ⟨(by decide : Dull ['T']), dull_padded _ _⟩⟩
  · exact dull_append.mpr ⟨dull_padded _ _, by decide⟩
  · simp [Instant.isoSeconds, DateTime.isoSeconds, t, offset, DateTime.clockText, DateTime.utcChars]

theorem printable_isoSeconds : Printable i.isoSeconds.toList ∧ '[' ∉ i.isoSeconds.toList := by
  obtain ⟨front, minutes, back, early, rfl, late, shape⟩ := toList_isoSeconds i
  have middle := dull_padded 2 ((DateTime.ofInstant i).clock / 1000000 / 60 % 60)
  rw [shape]
  constructor
  · exact printable_append.mpr ⟨early.printable, printable_append.mpr ⟨(by decide : Printable [':']),
      printable_append.mpr ⟨middle.printable, printable_append.mpr ⟨(by decide : Printable [':']),
        printable_append.mpr ⟨late.printable, by decide⟩⟩⟩⟩⟩
  · simp [early.noBracket, middle.noBracket, late.noBracket]

theorem codes_isoSeconds : codes i.isoSeconds.toList =
    [(Text.padded 2 ((DateTime.ofInstant i).clock / 1000000 / 60 % 60)).toList] := by
  obtain ⟨front, minutes, back, early, rfl, late, shape⟩ := toList_isoSeconds i
  have inside (n : Nat) : Inside (Text.padded 2 n).toList := by
    intro d member
    have digit := (Text.plain_padded 2 n).isDigit le_rfl member
    exact ⟨Text.ne_of_isDigit digit rfl, Text.isBlank_of_isDigit digit⟩
  have alone : codes [':', '0', '0'] = [] := rfl
  rw [shape, codes_behind early.noColon, codes_pair (inside _), codes_behind late.noColon, alone]

end Times

/-! The rows of both tables. -/

def Sized (r : Record) : Prop := ∃ s, kibibytes r.size = .ok s

def resultTexts (r : Record) : List String :=
  [r.name, (kibibytes r.size).toOption.getD "" ++ " KB",
    if r.extension.isEmpty then "(none)" else r.extension, r.modified.isoDate]

/-- The texts of a row of a listing in front of the name. -/
def listingFront (r : Record) : List String :=
  [formatPermissions r.permissions, r.kind.title,
    if r.isFolder then "" else toString r.size ++ "B", r.modified.isoSeconds]

section Rows
variable {r : Record} {records : List Record}

theorem dull_size (sized : Sized r) :
    Dull ((kibibytes r.size).toOption.getD "" ++ " KB").toList := by
  obtain ⟨s, ok⟩ := sized
  rw [ok, String.toList_append, dull_append]
  exact ⟨dull_kibibytes ok, by decide⟩

theorem printable_listingFront (r : Record) : ∀ s ∈ listingFront r, Printable s.toList := by
  have kind : Printable r.kind.title.toList := by cases r.kind <;> decide
  have size : Printable (if r.isFolder then "" else toString r.size ++ "B").toList := by
    split
    · decide
    · rw [String.toList_append]
      exact printable_append.mpr ⟨(dull_toString _).printable, by decide⟩
  simp only [listingFront, List.forall_mem_cons]
  exact ⟨(dull_formatPermissions _).printable, kind, size, (printable_isoSeconds _).1, nofun⟩

theorem regular_results (filled : records ≠ []) :
    Rich.Regular resultColumns (records.map resultTexts) where
  filled := by simpa using filled
  even := by
    rintro row listed
    obtain ⟨r, -, rfl⟩ := List.mem_map.mp listed
    rfl
  headers := by decide

theorem regular_listing (filled : records ≠ []) :
    Rich.Regular listingColumns (records.map listingRow) where
  filled := by simpa using filled
  even := by
    rintro row listed
    obtain ⟨r, -, rfl⟩ := List.mem_map.mp listed
    rfl
  headers := by decide

end Rows

/-! When they are printed. -/

section Printed
variable {rich : Rich} {r : Record} {records : List Record} {printed : String}

theorem mapM_resultRow (sized : ∀ r ∈ records, Sized r) :
    records.mapM resultRow = .ok (records.map resultTexts) := by
  refine mapM_eq_ok fun r member => ?_
  obtain ⟨s, ok⟩ := sized r member
  rw [resultRow, resultTexts, ok]
  rfl

theorem results_eq_ok_iff (filled : records ≠ []) : results rich records = .ok printed ↔
    (∀ r ∈ records, Sized r) ∧ ∃ table,
      rich.print rounded resultColumns (records.map resultTexts) = .ok table ∧
        printed = table ++ s!"Found {records.length} entries.\n" := by
  have more : ¬ records.isEmpty = true := by simpa using filled
  rw [results, if_neg more]
  constructor
  · intro ok
    obtain ⟨texts, rowed, ok⟩ := of_bind_eq_ok ok
    have sized : ∀ r ∈ records, Sized r := fun r member => by
      obtain ⟨row, own⟩ := each_of_mapM_eq_ok rowed r member
      obtain ⟨s, size, -⟩ := of_bind_eq_ok own
      exact ⟨s, size⟩
    rw [mapM_resultRow sized] at rowed
    cases rowed
    obtain ⟨table, set, ok⟩ := of_bind_eq_ok ok
    cases print : rich.print rounded resultColumns (records.map resultTexts) with
    | error e =>
        rw [print] at set
        cases set
    | ok table' =>
        rw [print] at set
        cases set
        cases ok
        exact ⟨sized, table, rfl, rfl⟩
  · rintro ⟨sized, table, print, rfl⟩
    rw [mapM_resultRow sized]
    show ((rich.print rounded resultColumns (records.map resultTexts)).mapError RenderError.markup >>= _) = _
    rw [print]
    rfl

theorem listing_eq_ok_iff : listing rich records = .ok printed ↔
    rich.print plain listingColumns (records.map listingRow) = .ok printed := by
  rw [listing]
  cases rich.print plain listingColumns (records.map listingRow) <;> simp [Except.mapError]

variable (documented : rich.Documented)
include documented

theorem readable_extension :
    rich.Readable (if r.extension.isEmpty then "(none)" else r.extension) ↔
      rich.Readable r.extension := by
  split
  · next empty =>
      rw [String.isEmpty_iff.mp empty]
      exact iff_of_true ⟨_, documented.read_dull (by decide)⟩ ⟨_, documented.read_dull (by decide)⟩
  · exact Iff.rfl

theorem readable_resultTexts (sized : Sized r) :
    (∀ s ∈ resultTexts r, rich.Readable s) ↔ rich.Readable r.name ∧ rich.Readable r.extension := by
  have size : rich.Readable _ := ⟨_, documented.read_dull (dull_size sized)⟩
  have date : rich.Readable r.modified.isoDate := ⟨_, documented.read_dull (dull_dateText _)⟩
  simp only [resultTexts, List.forall_mem_cons, readable_extension documented, size, date, true_and]
  exact and_congr_right fun _ => and_iff_left nofun

theorem read_listingFront (r : Record) : ∀ s ∈ listingFront r, rich.read s = .ok s.toList := by
  have kind : Dull r.kind.title.toList := by cases r.kind <;> decide
  have size : Dull (if r.isFolder then "" else toString r.size ++ "B").toList := by
    split
    · decide
    · rw [String.toList_append]
      exact dull_append.mpr ⟨dull_toString _, by decide⟩
  have date : rich.read r.modified.isoSeconds = .ok r.modified.isoSeconds.toList := by
    have ⟨printable, bracket⟩ := printable_isoSeconds r.modified
    refine documented.bare _ printable.calm bracket ?_
    rw [codes_isoSeconds]
    refine List.forall_mem_singleton.mpr ⟨_, ?_, rfl⟩
    exact Nat.lt_trans (Nat.mod_lt _ (by decide)) (by decide)
  simp only [listingFront, List.forall_mem_cons]
  exact ⟨documented.read_dull (dull_formatPermissions _), documented.read_dull kind,
    documented.read_dull size, date, nofun⟩

/-- Results are printed just when every size can be shown and every name and extension be read. -/
theorem results_printed_iff (filled : records ≠ []) : (∃ printed, results rich records = .ok printed) ↔
    ∀ r ∈ records, Sized r ∧ rich.Readable r.name ∧ rich.Readable r.extension := by
  have each (sized : ∀ r ∈ records, Sized r) :
      (∃ table, rich.print rounded resultColumns (records.map resultTexts) = .ok table) ↔
        ∀ r ∈ records, rich.Readable r.name ∧ rich.Readable r.extension := by
    rw [documented.prints _ _ _ (regular_results filled), List.forall_mem_map]
    exact forall₂_congr fun r member => readable_resultTexts documented (sized r member)
  simp only [results_eq_ok_iff filled]
  constructor
  · rintro ⟨printed, sized, table, print, -⟩ r member
    exact ⟨sized r member, (each sized).mp ⟨table, print⟩ r member⟩
  · intro fine
    have sized : ∀ r ∈ records, Sized r := fun r member => (fine r member).1
    obtain ⟨table, print⟩ := (each sized).mpr fun r member => (fine r member).2
    exact ⟨_, sized, table, print, rfl⟩

theorem listing_printed_iff (filled : records ≠ []) : (∃ printed, listing rich records = .ok printed) ↔
    ∀ r ∈ records, rich.Readable r.name := by
  simp only [listing_eq_ok_iff]
  rw [documented.prints _ _ _ (regular_listing filled), List.forall_mem_map]
  refine forall₂_congr fun r _ => ?_
  show (∀ s ∈ listingFront r ++ [r.name], rich.Readable s) ↔ _
  rw [List.forall_mem_append]
  exact (and_iff_right fun s listed => ⟨_, read_listingFront documented r s listed⟩).trans
    List.forall_mem_singleton

end Printed

end FileQuery.Table
