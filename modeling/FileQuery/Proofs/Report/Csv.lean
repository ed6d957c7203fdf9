import FileQuery.Report.Basic

/-! Separated values read back. A reader goes through the text character by character and ends a row
at every carriage return or line feed outside quotes. The writer quotes a field for a line feed in it
but not for a carriage return, so a row comes back unless one of its fields has only the latter. -/
set_option autoImplicit false
namespace FileQuery.Report

/-- Where a reader is: at the start of a row, at the start of a later field, in a field without
quotes, in one with quotes, behind a quote in it, or behind a carriage return that has ended a row. -/
inductive Position where
  | row
  | field
  | plain
  | quoted
  | closed
  | turned
  deriving DecidableEq

/-- A reader, with what it has read of the field and of the row, and the rows before. -/
structure Reader where
  position : Position := .row
  field : List Char := []
  row : List (List Char) := []
  rows : List (List (List Char)) := []

namespace Reader

def save (r : Reader) : Reader :=
  { r with position := .field, field := [], row := r.row ++ [r.field] }

/-- Ends the row, at a line feed or at a carriage return. -/
def turn (r : Reader) (c : Char) : Reader :=
  { position := if c = '\r' then .turned else .row, rows := r.rows ++ [r.row] }

def enter (delimiter : Char) (r : Reader) (c : Char) : Reader :=
  if c = '"' then { r with position := .quoted }
  else if c = delimiter then r.save
  else { r with position := .plain, field := [c] }

def resume (delimiter : Char) (r : Reader) (c : Char) : Reader :=
  if c = '\n' ∨ c = '\r' then r.save.turn c
  else if c = delimiter then r.save
  else { r with position := .plain, field := r.field ++ [c] }

def step (delimiter : Char) (r : Reader) (c : Char) : Reader :=
  match r.position with
  | .row => if c = '\n' ∨ c = '\r' then r.turn c else r.enter delimiter c
  | .turned =>
    if c = '\n' then { r with position := .row }
    else if c = '\r' then r.turn c
    else r.enter delimiter c
  | .field => if c = '\n' ∨ c = '\r' then r.save.turn c else r.enter delimiter c
  | .plain => r.resume delimiter c
  | .quoted =>
    if c = '"' then { r with position := .closed } else { r with field := r.field ++ [c] }
  | .closed =>
    if c = '"' then { r with position := .quoted, field := r.field ++ [c] }
    else r.resume delimiter c

def finish (r : Reader) : List (List (List Char)) :=
  match r.position with
  | .row | .turned => r.rows
  | _ => (r.save.turn '\n').rows

end Reader

def readCsv (delimiter : Char) (text : List Char) : List (List (List Char)) :=
  (text.foldl (Reader.step delimiter) {}).finish

/-! What a reader makes of what was written. -/

def Sealed (delimiter : Char) (f : List Char) : Prop := '\r' ∈ f → mustQuote delimiter f = true

namespace Reader

variable {d : Char} {f : List Char} {row : List (List Char)} {rows : List (List (List Char))}

theorem rows_step (r : Reader) (c : Char) : r.rows <+: (r.step d c).rows := by
  obtain ⟨position, field, row, rows⟩ := r
  cases position <;> simp only [step, enter, resume, save, turn] <;> repeat' split
  all_goals first | exact List.prefix_refl _ | exact List.prefix_append _ _

theorem rows_foldl (text : List Char) : ∀ r : Reader, r.rows <+: (text.foldl (step d) r).rows := by
  induction text with
  | nil => exact fun r => List.prefix_refl _
  | cons c rest ih => exact fun r => (rows_step r c).trans (ih (r.step d c))

theorem rows_finish (r : Reader) : r.rows <+: r.finish := by
  rw [finish]
  split
  · exact List.prefix_refl _
  · exact List.prefix_refl _
  · exact List.prefix_append _ _

theorem foldl_plain (text : List Char) (calm : ∀ c ∈ text, c ≠ d ∧ c ≠ '\n' ∧ c ≠ '\r') :
    ∀ field, text.foldl (step d) ⟨.plain, field, row, rows⟩ = ⟨.plain, field ++ text, row, rows⟩ := by
  induction text with
  | nil => simp
  | cons c rest ih =>
      intro field
      rw [List.forall_mem_cons] at calm
      obtain ⟨⟨other, noFeed, noReturn⟩, calm⟩ := calm
      have first : step d ⟨.plain, field, row, rows⟩ c = ⟨.plain, field ++ [c], row, rows⟩ := by
        simp only [step, resume, other, noFeed, noReturn, or_self, if_false]
      rw [List.foldl_cons, first, ih calm, List.append_assoc, List.singleton_append]

theorem foldl_quoted (text : List Char) : ∀ field,
    (text.flatMap fun c => if c = '"' then ['"', '"'] else [c]).foldl (step d)
        ⟨.quoted, field, row, rows⟩ =
      ⟨.quoted, field ++ text, row, rows⟩ := by
  induction text with
  | nil => simp
  | cons c rest ih =>
      intro field
      have first : (if c = '"' then ['"', '"'] else [c]).foldl (step d) ⟨.quoted, field, row, rows⟩ =
          ⟨.quoted, field ++ [c], row, rows⟩ := by
        by_cases quote : c = '"'
        · subst quote
          rfl
        · simp only [quote, if_false, List.foldl_cons, List.foldl_nil, step]
      rw [List.flatMap_cons, List.foldl_append, first, ih, List.append_assoc,
        List.singleton_append]

theorem calm_of_mustQuote (bare : mustQuote d f = false) :
    ∀ c ∈ f, c ≠ d ∧ c ≠ '"' ∧ c ≠ '\n' := by
  intro c member
  have none := List.any_eq_false.mp bare c member
  simpa [and_assoc] using none

/-- A reader that has come to the end of a field, or has not met a character of it yet. -/
structure Reads (start : Position) (f : List Char) (row : List (List Char))
    (rows : List (List (List Char))) (r : Reader) : Prop where
  field : r.field = f
  row : r.row = row
  rows : r.rows = rows
  position : r.position = .plain ∨ r.position = .closed ∨ r.position = start ∧ f = []

def Starts (p : Position) : Prop := p = .row ∨ p = .field

variable {start : Position} {r : Reader}

theorem Reads.rows_return (starts : Starts start) (reads : Reads start f row rows r) :
    ∃ t, (step d r '\r').rows = rows ++ [t] ∧ (t = row ++ [f] ∨ t = row) := by
  obtain ⟨position, field, row', rows'⟩ := r
  obtain ⟨rfl, rfl, rfl, at_⟩ := reads
  dsimp only at at_
  rcases at_ with rfl | rfl | ⟨rfl, rfl⟩
  · exact ⟨_, rfl, .inl rfl⟩
  · exact ⟨_, rfl, .inl rfl⟩
  · rcases starts with rfl | rfl
    · exact ⟨_, rfl, .inr rfl⟩
    · exact ⟨_, rfl, .inl rfl⟩

theorem Reads.step_feed (reads : Reads .field f row rows r) :
    step d r '\n' = ⟨.row, [], [], rows ++ [row ++ [f]]⟩ := by
  obtain ⟨position, field, row', rows'⟩ := r
  obtain ⟨rfl, rfl, rfl, at_⟩ := reads
  dsimp only at at_
  rcases at_ with rfl | rfl | ⟨rfl, rfl⟩ <;> rfl

section Starting
variable (starts : Starts start)
include starts

theorem Reads.step_delimiter (noQuote : d ≠ '"') (noFeed : d ≠ '\n') (noReturn : d ≠ '\r')
    (reads : Reads start f row rows r) : step d r d = ⟨.field, [], row ++ [f], rows⟩ := by
  obtain ⟨position, field, row', rows'⟩ := r
  obtain ⟨rfl, rfl, rfl, at_⟩ := reads
  dsimp only at at_
  rcases at_ with rfl | rfl | ⟨rfl, rfl⟩
  · simp only [step, resume, noFeed, noReturn, or_self, if_false, if_true, save]
  · simp only [step, resume, noQuote, noFeed, noReturn, or_self, if_false, if_true, save]
  · rcases starts with rfl | rfl <;>
      simp only [step, enter, noQuote, noFeed, noReturn, or_self, if_false, if_true, save]

theorem reads_bare (row : List (List Char)) (rows : List (List (List Char)))
    (bare : mustQuote d f = false) (calm : '\r' ∉ f) :
    Reads start f row rows (f.foldl (step d) ⟨start, [], row, rows⟩) := by
  have plain := calm_of_mustQuote bare
  cases f with
  | nil => exact ⟨rfl, rfl, rfl, .inr (.inr ⟨rfl, rfl⟩)⟩
  | cons c rest =>
      rw [List.forall_mem_cons] at plain
      obtain ⟨⟨other, noQuote', noFeed'⟩, plain⟩ := plain
      obtain ⟨noReturn', calm⟩ := not_or.mp (mt List.mem_cons.mpr calm)
      have first : step d ⟨start, [], row, rows⟩ c = ⟨.plain, [c], row, rows⟩ := by
        rcases starts with rfl | rfl <;>
          simp only [step, enter, other, noQuote', noFeed', Ne.symm noReturn', or_self, if_false]
      rw [List.foldl_cons, first, foldl_plain rest fun b member =>
        ⟨(plain b member).1, (plain b member).2.2, fun same => calm (same ▸ member)⟩]
      exact ⟨rfl, rfl, rfl, .inl rfl⟩

theorem reads_field (whole : Sealed d f) :
    Reads start f row rows ((csvField d f).foldl (step d) ⟨start, [], row, rows⟩) := by
  rw [csvField]
  cases bare : mustQuote d f with
  | false =>
      refine reads_bare starts row rows bare fun member => ?_
      rw [whole member] at bare
      cases bare
  | true =>
      have opens : step d ⟨start, [], row, rows⟩ '"' = ⟨.quoted, [], row, rows⟩ := by
        rcases starts with rfl | rfl <;> rfl
      rw [if_pos rfl, List.cons_append, List.foldl_cons, opens, List.foldl_append, foldl_quoted]
      exact ⟨rfl, rfl, rfl, .inr (.inl rfl)⟩

theorem torn_field (row : List (List Char)) (rows : List (List (List Char)))
    (torn : ¬ Sealed d f) (rest : List Char) :
    ∃ t, rows ++ [t] <+: ((csvField d f ++ rest).foldl (step d) ⟨start, [], row, rows⟩).rows ∧
      ∀ after, t ≠ row ++ f :: after := by
  obtain ⟨member, open_⟩ := Classical.not_imp.mp torn
  have bare : mustQuote d f = false := by simpa using open_
  obtain ⟨before, after, rfl, calm⟩ := List.eq_append_cons_of_mem member
  have plain : mustQuote d before = false := by
    rw [mustQuote, List.any_append, Bool.or_eq_false_iff] at bare
    exact bare.1
  obtain ⟨t, ended, kinds⟩ := (reads_bare starts row rows plain calm).rows_return
    (d := d) starts
  refine ⟨t, ?_, fun behind same => ?_⟩
  · rw [csvField, bare, if_neg Bool.false_ne_true, List.append_assoc, List.foldl_append,
      List.cons_append, List.foldl_cons, ← ended]
    exact rows_foldl _ _
  · rcases kinds with rfl | rfl
    · have shorter := congrArg List.length
        (List.cons.inj (List.append_cancel_left same)).1
      simp at shorter
    · have longer := congrArg List.length same
      simp at longer

end Starting

/-! Rows. -/

section Rows
variable (noQuote : d ≠ '"') (noFeed : d ≠ '\n') (noReturn : d ≠ '\r')
include noQuote noFeed noReturn

theorem foldl_field (starts : Starts start) (whole : Sealed d f) (rest : List Char) :
    (csvField d f ++ d :: rest).foldl (step d) ⟨start, [], row, rows⟩ =
      rest.foldl (step d) ⟨.field, [], row ++ [f], rows⟩ := by
  rw [List.foldl_append, List.foldl_cons,
    (reads_field starts whole).step_delimiter starts noQuote noFeed noReturn]

theorem foldl_fields (fields : List (List Char)) : ∀ {row}, fields ≠ [] →
    (∀ f ∈ fields, Sealed d f) →
    (csvRow d fields).foldl (step d) ⟨.field, [], row, rows⟩ =
      ⟨.row, [], [], rows ++ [row ++ fields]⟩ := by
  induction fields with
  | nil => exact fun some => absurd rfl some
  | cons f rest ih =>
      intro row _ whole
      rw [List.forall_mem_cons] at whole
      cases rest with
      | nil =>
          rw [csvRow, List.foldl_append, List.foldl_cons, List.foldl_nil,
            (reads_field (.inr rfl) whole.1).step_feed]
      | cons g rest =>
          rw [csvRow.eq_3 _ _ _ (by simp),
            foldl_field noQuote noFeed noReturn (.inr rfl) whole.1, ih (by simp) whole.2,
            List.append_assoc, List.singleton_append]

theorem torn_fields (rows : List (List (List Char))) (fields : List (List Char)) :
    ∀ {start} (row), Starts start →
    (¬ ∀ f ∈ fields, Sealed d f) →
    ∃ t, rows ++ [t] <+: ((csvRow d fields).foldl (step d) ⟨start, [], row, rows⟩).rows ∧
      t ≠ row ++ fields := by
  induction fields with
  | nil => exact fun _ _ torn => absurd (by simp) torn
  | cons f rest ih =>
      intro start row starts torn
      rw [List.forall_mem_cons] at torn
      by_cases whole : Sealed d f
      · have torn' := fun others => torn ⟨whole, others⟩
        cases rest with
        | nil => exact absurd (by simp) torn'
        | cons g rest =>
            obtain ⟨t, stays, other⟩ := ih (row ++ [f]) (.inr rfl) torn'
            refine ⟨t, ?_, ?_⟩
            · rw [csvRow.eq_3 _ _ _ (by simp), foldl_field noQuote noFeed noReturn starts whole]
              exact stays
            · rwa [List.append_assoc, List.singleton_append] at other
      · obtain ⟨behind, same⟩ : ∃ behind, csvRow d (f :: rest) = csvField d f ++ behind := by
          cases rest with
          | nil => exact ⟨_, rfl⟩
          | cons g rest => exact ⟨_, rfl⟩
        obtain ⟨t, stays, other⟩ := torn_field starts row rows whole behind
        rw [same]
        exact ⟨t, stays, other rest⟩

theorem foldl_row {fields : List (List Char)} (two : 2 ≤ fields.length)
    (whole : ∀ f ∈ fields, Sealed d f) :
    (csvRow d fields).foldl (step d) ⟨.row, [], [], rows⟩ = ⟨.row, [], [], rows ++ [fields]⟩ := by
  match fields, two with
  | f :: g :: rest, _ =>
      rw [List.forall_mem_cons] at whole
      rw [csvRow.eq_3 _ _ _ (by simp), foldl_field noQuote noFeed noReturn (.inl rfl) whole.1,
        foldl_fields noQuote noFeed noReturn _ (by simp) whole.2]
      rfl

/-- Rows of two fields or more are read as they were written if every field is, and else a row is read
that was not written. -/
theorem finish_rows (table : List (List (List Char))) : ∀ rows,
    (∀ fields ∈ table, 2 ≤ fields.length) →
    (((table.flatMap (csvRow d)).foldl (step d) ⟨.row, [], [], rows⟩).finish = rows ++ table ↔
      ∀ fields ∈ table, ∀ f ∈ fields, Sealed d f) := by
  induction table with
  | nil => simp [finish]
  | cons fields rest ih =>
      intro rows two
      rw [List.forall_mem_cons] at two ⊢
      rw [List.flatMap_cons, List.foldl_append]
      by_cases whole : ∀ f ∈ fields, Sealed d f
      · rw [foldl_row noQuote noFeed noReturn two.1 whole, List.append_cons rows fields rest, ih _ two.2]
        exact (and_iff_right whole).symm
      · refine iff_of_false (fun same => ?_) (fun all => whole all.1)
        obtain ⟨t, stays, other⟩ := torn_fields noQuote noFeed noReturn rows fields [] (.inl rfl) whole
        have left := stays.trans
          ((rows_foldl (d := d) (rest.flatMap (csvRow d)) _).trans (rows_finish _))
        rw [same, List.prefix_append_right_inj, List.cons_prefix_cons] at left
        exact other left.1

end Rows

end Reader

theorem sealed_label {d : Char} : ∀ f ∈ Field.labels.map String.toList, Sealed d f := by
  have calm : ∀ f ∈ Field.labels.map String.toList, '\r' ∉ f := by decide
  exact fun f member turns => absurd turns (calm f member)

theorem two_fields {records : List Record} : ∀ fields ∈ csvRows records, 2 ≤ fields.length := by
  intro fields member
  rcases List.mem_cons.mp member with rfl | member
  · decide
  · obtain ⟨r, _, rfl⟩ := List.mem_map.mp member
    rw [List.length_map]
    decide

theorem sealed_iff {d : Char} {f : List Char} :
    Sealed d f ↔ ('\r' ∈ f → d ∈ f ∨ '"' ∈ f ∨ '\n' ∈ f) := by
  rw [Sealed, mustQuote, List.any_eq_true]
  refine imp_congr Iff.rfl ⟨?_, ?_⟩
  · rintro ⟨c, member, special⟩
    simp only [Bool.or_eq_true, beq_iff_eq] at special
    rcases special with (rfl | rfl) | rfl
    · exact .inl member
    · exact .inr (.inl member)
    · exact .inr (.inr member)
  · rintro (member | member | member)
    · exact ⟨d, member, by simp⟩
    · exact ⟨'"', member, by simp⟩
    · exact ⟨'\n', member, by simp⟩

/-- The report of some records reads back as the header and a row of texts for each record exactly when
every text of theirs with a carriage return in it is quoted, for a delimiter, a double quote or a line
feed that it has too. -/
theorem csv_reads_back_iff {d : Char} (noQuote : d ≠ '"') (noFeed : d ≠ '\n') (noReturn : d ≠ '\r')
    (records : List Record) :
    readCsv d (csv d records).toList =
        Field.labels.map String.toList ::
          records.map (fun r => Field.all.map fun f => (fieldText r f).toList) ↔
      ∀ r ∈ records, ∀ f ∈ Field.all, '\r' ∈ (fieldText r f).toList →
        d ∈ (fieldText r f).toList ∨ '"' ∈ (fieldText r f).toList ∨
          '\n' ∈ (fieldText r f).toList := by
  have read := Reader.finish_rows noQuote noFeed noReturn (csvRows records) [] two_fields
  rw [List.nil_append] at read
  rw [csv, String.toList_ofList, readCsv]
  refine read.trans ?_
  rw [csvRows, List.forall_mem_cons, and_iff_right sealed_label]
  simp only [List.forall_mem_map, sealed_iff]

theorem csv_reads_back_quoted :
    readCsv ',' (csv ',' [{ name := "a\r,b", path := "/data/x" }]).toList =
      Field.labels.map String.toList ::
        [{ name := "a\r,b", path := "/data/x" }].map
          (fun r : Record => Field.all.map fun f => (fieldText r f).toList) :=
  (csv_reads_back_iff (by decide) (by decide) (by decide) _).mpr (by decide)

/-- A name with a carriage return alone is torn. -/
theorem csv_torn_by_return :
    readCsv ',' (csv ',' [{ name := "a\rb", path := "/data/x" }]).toList ≠
      Field.labels.map String.toList ::
        [{ name := "a\rb", path := "/data/x" }].map
          (fun r : Record => Field.all.map fun f => (fieldText r f).toList) := by
  decide +kernel

end FileQuery.Report
