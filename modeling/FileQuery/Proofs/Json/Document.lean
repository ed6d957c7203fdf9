import FileQuery.Json.Printer
import FileQuery.Proofs.Json.Spelling
import FileQuery.Proofs.Json.Number

/-! Strings as they are written in a document are read back, whatever characters they have. -/
set_option autoImplicit false
namespace FileQuery.Json

variable {opened offset : Nat} {c : Char} {t : List Char}

theorem unitDigits_control {n : Nat} (control : n < 0x20) : UnitDigits n (Text.hexDigits 4 n) := by
  have digits : ∀ n < 0x20, (Text.hexDigits 4 n).map some =
      [n / 4096, n / 256 % 16, n / 16 % 16, n % 16].map fun k => "0123456789abcdef".toList[k]? := by
    decide
  obtain ⟨a, r, whole, first, rest⟩ := List.map_eq_cons_iff.mp (digits n control)
  obtain ⟨b, r, rfl, second, rest⟩ := List.map_eq_cons_iff.mp rest
  obtain ⟨c, r, rfl, third, rest⟩ := List.map_eq_cons_iff.mp rest
  obtain ⟨d, r, rfl, fourth, rest⟩ := List.map_eq_cons_iff.mp rest
  rw [List.map_nil, List.map_eq_nil_iff] at rest
  rw [whole, rest]
  exact .mk (.inl first.symm) (.inl second.symm) (.inl third.symm) (.inl fourth.symm)

theorem scanString_control {n : Nat} (control : n < 0x20) (some : t ≠ []) :
    scanString true opened offset (unitEscape n ++ t) =
      (scanString true opened (offset + 6) t).map (more n) := by
  have low : Text.isHighSurrogate n = false := by
    simp only [Text.isHighSurrogate, Bool.and_eq_false_iff, decide_eq_false_iff_not]
    omega
  exact scanString_unit (unitDigits_control control) some low

theorem scanString_stringChar (opened offset : Nat) (c : Char) (some : t ≠ []) : ∃ offset',
    scanString true opened offset (stringChar false c ++ t) =
      (scanString true opened offset' t).map (more c.toNat) := by
  rw [stringChar.eq_def]
  split
  · exact ⟨_, scanString_simple rfl⟩
  · exact ⟨_, scanString_simple rfl⟩
  · exact ⟨_, scanString_simple rfl⟩
  · exact ⟨_, scanString_simple rfl⟩
  · exact ⟨_, scanString_simple rfl⟩
  · exact ⟨_, scanString_simple rfl⟩
  · exact ⟨_, scanString_simple rfl⟩
  · next quote slash _ _ _ _ _ =>
      dsimp only
      split
      · next control => exact ⟨_, scanString_control control some⟩
      · next printed =>
          rw [if_pos (by simp)]
          exact ⟨_, scanString_plain quote slash fun _ => Nat.not_lt.mp printed⟩

theorem scanString_written (opened : Nat) (rest : List Char) (s : List Char) : ∀ offset,
    ∃ stop, scanString true opened offset (s.flatMap (stringChar false) ++ '"' :: rest) =
      .ok (s.map Char.toNat, stop, rest) := by
  induction s with
  | nil => exact fun offset => ⟨offset + 1, by rw [List.flatMap_nil, List.nil_append, scanString]; rfl⟩
  | cons c s ih =>
      intro offset
      obtain ⟨offset', first⟩ := scanString_stringChar (t := s.flatMap (stringChar false) ++ '"' :: rest)
        opened offset c (by simp)
      obtain ⟨stop, read⟩ := ih offset'
      refine ⟨stop, ?_⟩
      rw [List.flatMap_cons, List.append_assoc, first, read]
      rfl

end FileQuery.Json

/-! Documents that are written are read back. Values come back from their text at any depth of any
layout that leaves characters as they are, if no object has a name twice and no integer is too long;
a number with a fraction or an exponent is left aside. -/

namespace FileQuery.Json

variable {limit : Option Nat} {l : Layout} {n depth : Nat} {rest : List Char}

theorem reads_string (s : String) (rest : List Char) :
    Reads readString (s.toList.flatMap (stringChar false) ++ '"' :: rest) s rest := by
  intro offset
  obtain ⟨stop, read⟩ := scanString_written (offset - 1) rest s.toList offset
  refine ⟨stop, ?_⟩
  rw [readString, read]
  dsimp only
  rw [← Text.CodePoints.ofString, Text.CodePoints.toString_ofString]

theorem stringText_append (s : String) (rest : List Char) :
    stringText false s ++ rest = '"' :: (s.toList.flatMap (stringChar false) ++ '"' :: rest) := by
  rw [stringText, List.cons_append, List.cons_append, List.append_assoc, List.singleton_append]

/-! Spaces. -/

section Spaces
variable {s : List Char} (ends : ∀ c ∈ s.head?, isSpace c = false)
include ends

theorem takeWhile_isSpace : s.takeWhile isSpace = [] := by
  cases s with
  | nil => rfl
  | cons c s => rw [List.takeWhile_cons, ends c rfl, if_neg Bool.false_ne_true]

theorem skipSpaces_eq (offset : Nat) : Rest.skipSpaces ⟨offset, s⟩ = ⟨offset, s⟩ := by
  rw [Rest.skipSpaces, takeWhile_isSpace ends]
  rfl

theorem skipSpaces_append {blanks : List Char} (spaces : ∀ c ∈ blanks, isSpace c = true)
    (offset : Nat) : ∃ offset', Rest.skipSpaces ⟨offset, blanks ++ s⟩ = ⟨offset', s⟩ := by
  refine ⟨offset + blanks.length, ?_⟩
  rw [Rest.skipSpaces, List.takeWhile_append_of_pos spaces, takeWhile_isSpace ends, List.append_nil,
    Rest.skip, List.drop_left]

end Spaces

theorem isSpace_newline (l : Layout) (depth : Nat) : ∀ c ∈ l.newline depth, isSpace c = true := by
  intro c member
  rw [Layout.newline] at member
  split at member
  · cases member
  · rcases List.mem_cons.mp member with rfl | member
    · rfl
    · rw [List.eq_of_mem_replicate member]
      rfl

theorem comma_eq (l : Layout) (depth : Nat) :
    ∃ blanks, l.comma depth = ',' :: blanks ∧ ∀ c ∈ blanks, isSpace c = true := by
  rw [Layout.comma]
  split
  · exact ⟨[' '], rfl, by simp [isSpace]⟩
  · exact ⟨_, rfl, isSpace_newline l depth⟩

/-! Values that come back. -/

mutual

/-- Has no fraction, no name twice in an object and no integer that is too long. -/
def Value.Readable (limit : Option Nat) : Value → Prop
  | .null => True
  | .bool _ => True
  | .int n => Fits limit n
  | .real _ => False
  | .string _ => True
  | .array items => itemsReadable limit items
  | .object entries => (entries.map Prod.fst).Nodup ∧ entriesReadable limit entries

def itemsReadable (limit : Option Nat) : List Value → Prop
  | [] => True
  | v :: vs => v.Readable limit ∧ itemsReadable limit vs

def entriesReadable (limit : Option Nat) : List (String × Value) → Prop
  | [] => True
  | (_, v) :: es => v.Readable limit ∧ entriesReadable limit es

end

theorem itemsReadable_iff {items : List Value} :
    itemsReadable limit items ↔ ∀ v ∈ items, v.Readable limit := by
  induction items with
  | nil => simp [itemsReadable]
  | cons v vs ih => rw [itemsReadable, ih, List.forall_mem_cons]

theorem entriesReadable_iff {entries : List (String × Value)} :
    entriesReadable limit entries ↔ ∀ e ∈ entries, e.2.Readable limit := by
  induction entries with
  | nil => simp [entriesReadable]
  | cons e es ih => rw [entriesReadable, ih, List.forall_mem_cons]

/-- Begins with no space, and neither ends an array nor marks a byte order. -/
def Begins (s : List Char) : Prop :=
  ∃ c t, s = c :: t ∧ isSpace c = false ∧ c ≠ ']' ∧ c ≠ '\uFEFF'

theorem intText_eq_cons (m : Int) : ∃ c t, intText m = c :: t ∧ (isDigit c = true ∨ c = '-') := by
  rw [intText, Text.toList_toString]
  split
  · obtain ⟨c, r, digits, digit, _⟩ := digitsOf_eq_cons m.natAbs
    exact ⟨c, r, digits, .inl digit⟩
  · exact ⟨'-', _, rfl, .inr rfl⟩

theorem ne_of_isDigit {c d : Char} (first : isDigit c = true ∨ c = '-') (other : isDigit d = false)
    (noMinus : d ≠ '-') : c ≠ d := by
  rintro rfl
  rcases first with digit | minus
  · rw [digit] at other
    cases other
  · exact noMinus minus

/-- Comes back from its text, at any depth, whatever does not go on with a number behind it. -/
structure Value.ComesBack (l : Layout) (limit : Option Nat) (v : Value) : Prop where
  begins : ∀ depth, Begins (v.chars l depth)
  reads : ∀ {n : Nat} (depth : Nat) (rest : List Char), (v.chars l depth).length ≤ n → Stops rest →
    Reads (readValue limit n) (v.chars l depth ++ rest) v rest

/-! Reading. -/

theorem readValue_scalar {c : Char} {t : List Char} (quote : c ≠ '"') (bracket : c ≠ '[')
    (brace : c ≠ '\x7b') (offset : Nat) :
    readValue limit (n + 1) ⟨offset, c :: t⟩ = readScalar limit ⟨offset, c :: t⟩ := by
  rw [readValue]
  split
  · next same => exact absurd (List.cons.inj same).1 quote
  · next same => exact absurd (List.cons.inj same).1 bracket
  · next same => exact absurd (List.cons.inj same).1 brace
  · rfl

section Parts
variable {v : Value} {vs : List Value} {es es' : List (String × Value)} {text blanks t : List Char}

theorem ends_of_begins (begins : Begins t) : ∀ c ∈ t.head?, isSpace c = false := by
  obtain ⟨c, r, rfl, noSpace, _⟩ := begins
  intro d same
  rw [← Option.some.inj same]
  exact noSpace

section Array
variable (spaces : ∀ c ∈ blanks, isSpace c = true)
include spaces

theorem reads_array (begins : Begins t) (items : Reads (readItems limit n) t vs rest) :
    Reads (readValue limit (n + 1)) ('[' :: (blanks ++ t)) (.array vs) rest := by
  intro offset
  obtain ⟨offset₁, skipped⟩ := skipSpaces_append (ends_of_begins begins) spaces (offset + 1)
  obtain ⟨offset₂, read⟩ := items offset₁
  have inside : (Rest.skip ⟨offset, '[' :: (blanks ++ t)⟩ 1).skipSpaces = ⟨offset₁, t⟩ := skipped
  obtain ⟨c, r, rfl, _, noClose, _⟩ := begins
  refine ⟨offset₂, ?_⟩
  simp only [readValue, inside]
  split
  · next same => exact absurd (List.cons.inj same).1 noClose
  · rw [read]
    rfl

theorem reads_last (value : Reads (readValue limit n) text v (blanks ++ ']' :: rest)) :
    Reads (readItems limit (n + 1)) text [v] rest := by
  intro offset
  obtain ⟨offset₁, read⟩ := value offset
  obtain ⟨offset₂, skipped⟩ := skipSpaces_append (s := ']' :: rest) (by simp [isSpace]) spaces offset₁
  refine ⟨offset₂ + 1, ?_⟩
  rw [readItems, read]
  dsimp only [bind, Except.bind]
  rw [skipped]
  rfl

theorem reads_more (value : Reads (readValue limit n) text v (',' :: (blanks ++ t)))
    (begins : Begins t) (others : Reads (readItems limit n) t vs rest) :
    Reads (readItems limit (n + 1)) text (v :: vs) rest := by
  intro offset
  obtain ⟨offset₁, read⟩ := value offset
  have stays := skipSpaces_eq (s := ',' :: (blanks ++ t)) (by simp [isSpace]) offset₁
  obtain ⟨offset₂, skipped⟩ := skipSpaces_append (ends_of_begins begins) spaces (offset₁ + 1)
  obtain ⟨offset₃, left⟩ := others offset₂
  refine ⟨offset₃, ?_⟩
  rw [readItems, read]
  dsimp only [bind, Except.bind]
  rw [stays]
  dsimp only
  have behind : (Rest.skip ⟨offset₁, ',' :: (blanks ++ t)⟩ 1).skipSpaces = ⟨offset₂, t⟩ := skipped
  rw [behind, left]
  rfl

theorem reads_object (begins : t.head? = some '"')
    (entries : Reads (readEntries limit n []) t es rest) :
    Reads (readValue limit (n + 1)) ('\x7b' :: (blanks ++ t)) (.object es) rest := by
  intro offset
  have ends : ∀ c ∈ t.head?, isSpace c = false := by simp [begins, isSpace]
  obtain ⟨offset₁, skipped⟩ := skipSpaces_append ends spaces (offset + 1)
  obtain ⟨offset₂, read⟩ := entries offset₁
  have inside : (Rest.skip ⟨offset, '\x7b' :: (blanks ++ t)⟩ 1).skipSpaces = ⟨offset₁, t⟩ := skipped
  refine ⟨offset₂, ?_⟩
  simp only [readValue, inside]
  split
  · cases begins
  · rw [read]
    rfl

theorem reads_entry {k : String} {behind : List Char} (begins : Begins text)
    (value : Reads (readValue limit n) text v behind)
    (goesOn : behind = blanks ++ '\x7d' :: rest ∧ es' = setEntry k v es ∨
      ∃ t, behind = ',' :: (blanks ++ t) ∧ t.head? = some '"' ∧
        Reads (readEntries limit n (setEntry k v es)) t es' rest) :
    Reads (readEntries limit (n + 1) es) (stringText false k ++ ':' :: ' ' :: text) es' rest := by
  intro offset
  obtain ⟨offset₁, named⟩ := reads_string k (':' :: ' ' :: text) (offset + 1)
  have colon := skipSpaces_eq (s := ':' :: ' ' :: text) (by simp [isSpace]) offset₁
  have blank : ∀ c ∈ [' '], isSpace c = true := by simp [isSpace]
  obtain ⟨offset₂, skipped⟩ := skipSpaces_append (ends_of_begins begins) blank (offset₁ + 1)
  obtain ⟨offset₃, read⟩ := value offset₂
  have inside : (Rest.skip ⟨offset₁, ':' :: ' ' :: text⟩ 1).skipSpaces = ⟨offset₂, text⟩ := skipped
  have name : readString (Rest.skip ⟨offset, '"' :: (k.toList.flatMap (stringChar false) ++
      '"' :: ':' :: ' ' :: text)⟩ 1) = .ok (k, ⟨offset₁, ':' :: ' ' :: text⟩) := named
  rw [stringText_append]
  simp only [readEntries, name, bind, Except.bind, colon, inside, read]
  rcases goesOn with ⟨rfl, rfl⟩ | ⟨t, rfl, first, others⟩
  · obtain ⟨offset₄, ended⟩ :=
      skipSpaces_append (s := '\x7d' :: rest) (by simp [isSpace]) spaces offset₃
    rw [ended]
    exact ⟨_, rfl⟩
  · have stays := skipSpaces_eq (s := ',' :: (blanks ++ t)) (by simp [isSpace]) offset₃
    obtain ⟨offset₄, skipped⟩ :=
      skipSpaces_append (s := t) (by simp [first, isSpace]) spaces (offset₃ + 1)
    obtain ⟨offset₅, left⟩ := others offset₄
    have behind : (Rest.skip ⟨offset₃, ',' :: (blanks ++ t)⟩ 1).skipSpaces = ⟨offset₄, t⟩ := skipped
    rw [stays]
    simp only [behind, left]
    exact ⟨_, rfl⟩

end Array

end Parts

/-! Each kind of value. -/

theorem comesBack_null : Value.null.ComesBack l limit where
  begins depth := ⟨_, _, by rw [Value.chars]; rfl, rfl, by decide⟩
  reads {n} depth rest long _ offset := by
    rw [Value.chars] at long ⊢
    cases n with
    | zero => cases long
    | succ n => exact ⟨_, rfl⟩

theorem comesBack_bool (b : Bool) : (Value.bool b).ComesBack l limit where
  begins depth := by cases b <;> exact ⟨_, _, by rw [Value.chars]; rfl, rfl, by decide⟩
  reads {n} depth rest long _ offset := by
    rw [Value.chars] at long ⊢
    cases n with
    | zero => cases b <;> cases long
    | succ n => cases b <;> exact ⟨_, rfl⟩

theorem comesBack_int {m : Int} (fits : Fits limit m) : (Value.int m).ComesBack l limit where
  begins depth := by
    rw [Value.chars]
    obtain ⟨c, t, same, first⟩ := intText_eq_cons m
    refine ⟨c, t, same, ?_, ne_of_isDigit first rfl (by decide), ne_of_isDigit first rfl (by decide)⟩
    have other := fun d letter noMinus => ne_of_isDigit (d := d) first letter noMinus
    simp [isSpace, other ' ' rfl, other '\t' rfl, other '\n' rfl, other '\r' rfl]
  reads {n} depth rest long stops offset := by
    obtain ⟨c, t, same, first⟩ := intText_eq_cons m
    obtain ⟨offset', read⟩ := reads_intText stops fits offset
    rw [Value.chars] at long ⊢
    cases n with
    | zero =>
        rw [same] at long
        cases long
    | succ n =>
        refine ⟨offset', ?_⟩
        rw [← read, same]
        exact readValue_scalar (ne_of_isDigit first rfl (by decide))
          (ne_of_isDigit first rfl (by decide)) (ne_of_isDigit first rfl (by decide)) offset

theorem comesBack_string (plain : l.ascii = false) (s : String) :
    (Value.string s).ComesBack l limit where
  begins depth := ⟨_, _, by rw [Value.chars]; rfl, rfl, by decide⟩
  reads {n} depth rest long _ offset := by
    obtain ⟨offset', read⟩ := reads_string s rest (offset + 1)
    rw [Value.chars, plain] at long ⊢
    cases n with
    | zero => cases long
    | succ n =>
        refine ⟨offset', ?_⟩
        have inside : readString (Rest.skip ⟨offset, '"' :: (s.toList.flatMap (stringChar false) ++
          '"' :: rest)⟩ 1) = .ok (s, ⟨offset', rest⟩) := read
        rw [stringText_append]
        simp only [readValue, inside]
        rfl

/-! Arrays and objects. -/

theorem stops_append (blanks : List Char) {c : Char} (spaces : ∀ d ∈ blanks, isSpace d = true)
    (own : isDigit c = false ∧ c ≠ '.' ∧ c ≠ 'e' ∧ c ≠ 'E') (rest : List Char) :
    Stops (blanks ++ c :: rest) := by
  intro d first
  cases blanks with
  | nil =>
      rw [← Option.some.inj first]
      exact own
  | cons b blanks =>
      have space := spaces b (by simp)
      rw [← Option.some.inj first]
      simp only [isSpace, Bool.or_eq_true, beq_iff_eq] at space
      rcases space with ((rfl | rfl) | rfl) | rfl <;> decide

theorem stops_items (l : Layout) (depth : Nat) (vs : List Value) (depth' : Nat) (rest : List Char) :
    Stops (itemChars l depth vs ++ (l.newline depth' ++ ']' :: rest)) := by
  cases vs with
  | nil => exact stops_append _ (isSpace_newline l depth') (by decide) rest
  | cons v vs =>
      obtain ⟨blanks, comma, _⟩ := comma_eq l depth
      rw [itemChars, comma]
      exact stops_append [] (by simp) (by decide) _

theorem reads_items (vs : List Value) : ∀ {n : Nat} {v : Value} {depth' : Nat} {rest : List Char},
    (∀ u ∈ v :: vs, u.ComesBack l limit) →
    (v.chars l depth).length + (itemChars l depth vs).length < n →
    Reads (readItems limit n)
      (v.chars l depth ++ (itemChars l depth vs ++ (l.newline depth' ++ ']' :: rest))) (v :: vs) rest := by
  induction vs with
  | nil =>
      intro n v depth' rest each long
      obtain ⟨m, rfl⟩ := Nat.exists_eq_add_one_of_ne_zero (Nat.ne_zero_of_lt long)
      have value := (each v (by simp)).reads (n := m) depth _ (by omega)
        (stops_items l depth [] depth' rest)
      rw [itemChars, List.nil_append] at value ⊢
      exact reads_last (isSpace_newline l depth') value
  | cons u vs ih =>
      intro n v depth' rest each long
      obtain ⟨m, rfl⟩ := Nat.exists_eq_add_one_of_ne_zero (Nat.ne_zero_of_lt long)
      have value := (each v (by simp)).reads (n := m) depth _ (by omega)
        (stops_items l depth (u :: vs) depth' rest)
      obtain ⟨blanks, comma, spaces⟩ := comma_eq l depth
      simp only [itemChars, comma, List.cons_append, List.length_cons, List.length_append,
        List.append_assoc] at long value ⊢
      refine reads_more spaces value ?_ (ih (fun w member => each w (List.mem_cons_of_mem _ member))
        (by omega))
      obtain ⟨c, t, same, begins⟩ := (each u (by simp)).begins depth
      exact ⟨c, _, by rw [same, List.cons_append], begins⟩

theorem comesBack_array {items : List Value} (each : ∀ v ∈ items, v.ComesBack l limit) :
    (Value.array items).ComesBack l limit where
  begins depth := by
    cases items with
    | nil => exact ⟨_, _, by rw [Value.chars], rfl, by decide⟩
    | cons v vs => exact ⟨_, _, by rw [Value.chars]; rfl, rfl, by decide⟩
  reads {n} depth rest long _ := by
    cases items with
    | nil =>
        rw [Value.chars] at long ⊢
        cases n with
        | zero => cases long
        | succ n => exact fun offset => ⟨_, rfl⟩
    | cons v vs =>
        rw [Value.chars] at long ⊢
        simp only [List.cons_append, List.append_assoc, List.length_cons, List.length_append,
          List.length_nil] at long ⊢
        obtain ⟨m, rfl⟩ := Nat.exists_eq_add_one_of_ne_zero (n := n) (by omega)
        refine reads_array (isSpace_newline l _) ?_ (reads_items vs each (by omega))
        obtain ⟨c, t, same, begins⟩ := (each v (by simp)).begins (depth + 1)
        exact ⟨c, _, by rw [same, List.cons_append], begins⟩

theorem setEntry_of_not_mem {name : String} (v : Value) {es : List (String × Value)}
    (new : name ∉ es.map Prod.fst) : setEntry name v es = es ++ [(name, v)] := by
  induction es with
  | nil => rfl
  | cons e es ih =>
      obtain ⟨k, old⟩ := e
      rw [List.map_cons, List.mem_cons, not_or] at new
      rw [setEntry, if_neg (Ne.symm new.1), ih new.2, List.cons_append]

theorem stops_entries (l : Layout) (depth : Nat) (es : List (String × Value)) (depth' : Nat)
    (rest : List Char) :
    Stops (entryChars l depth es ++ (l.newline depth' ++ '\x7d' :: rest)) := by
  cases es with
  | nil => exact stops_append _ (isSpace_newline l depth') (by decide) rest
  | cons e es =>
      obtain ⟨k, v⟩ := e
      obtain ⟨blanks, comma, _⟩ := comma_eq l depth
      rw [entryChars, comma]
      exact stops_append [] (by simp) (by decide) _

theorem reads_entries (plain : l.ascii = false) (es : List (String × Value)) :
    ∀ {n : Nat} {k : String} {v : Value} (done : List (String × Value)) (depth' : Nat)
      (rest : List Char),
    (∀ e ∈ (k, v) :: es, e.2.ComesBack l limit) →
    (done.map Prod.fst ++ ((k, v) :: es).map Prod.fst).Nodup →
    (v.chars l depth).length + (entryChars l depth es).length < n →
    Reads (readEntries limit n done)
      (stringText false k ++ ':' :: ' ' :: (v.chars l depth ++
        (entryChars l depth es ++ (l.newline depth' ++ '\x7d' :: rest)))) (done ++ (k, v) :: es) rest := by
  -- over the entries behind the first, for whatever entries were read before it
  induction es with
  | nil =>
      intro n k v done depth' rest each distinct long
      obtain ⟨m, rfl⟩ := Nat.exists_eq_add_one_of_ne_zero (Nat.ne_zero_of_lt long)
      have own : v.ComesBack l limit := each (k, v) (by simp)
      have value := own.reads (n := m) depth _ (by omega)
        (stops_entries l depth [] depth' rest)
      have new : k ∉ done.map Prod.fst := fun member =>
        (List.nodup_append.mp distinct).2.2 k member k (by simp) rfl
      rw [entryChars, List.nil_append] at value ⊢
      refine reads_entry (isSpace_newline l depth') ?_ value
        (.inl ⟨rfl, (setEntry_of_not_mem v new).symm⟩)
      obtain ⟨c, t, same, begins⟩ := own.begins depth
      exact ⟨c, _, by rw [same, List.cons_append], begins⟩
  | cons e es ih =>
      intro n k v done depth' rest each distinct long
      obtain ⟨k', v'⟩ := e
      obtain ⟨m, rfl⟩ := Nat.exists_eq_add_one_of_ne_zero (Nat.ne_zero_of_lt long)
      have own : v.ComesBack l limit := each (k, v) (by simp)
      have value := own.reads (n := m) depth _ (by omega)
        (stops_entries l depth ((k', v') :: es) depth' rest)
      have new : k ∉ done.map Prod.fst := fun member =>
        (List.nodup_append.mp distinct).2.2 k member k (by simp) rfl
      obtain ⟨blanks, comma, spaces⟩ := comma_eq l depth
      simp only [entryChars, comma, plain, List.cons_append, List.length_cons, List.length_append,
        List.append_assoc] at long value ⊢
      have others := ih (n := m) (k := k') (v := v') (done ++ [(k, v)]) depth' rest
        (fun e member => each e (List.mem_cons_of_mem _ member)) (by simpa using distinct) (by omega)
      rw [List.append_assoc, List.singleton_append, ← setEntry_of_not_mem v new] at others
      refine reads_entry spaces ?_ value (.inr ⟨_, rfl, by rw [stringText_append]; rfl, others⟩)
      obtain ⟨c, t, same, begins⟩ := own.begins depth
      exact ⟨c, _, by rw [same, List.cons_append], begins⟩

theorem comesBack_object (plain : l.ascii = false) {entries : List (String × Value)}
    (distinct : (entries.map Prod.fst).Nodup) (each : ∀ e ∈ entries, e.2.ComesBack l limit) :
    (Value.object entries).ComesBack l limit where
  begins depth := by
    cases entries with
    | nil => exact ⟨_, _, by rw [Value.chars], rfl, by decide⟩
    | cons e es =>
        obtain ⟨k, v⟩ := e
        exact ⟨_, _, by rw [Value.chars]; rfl, rfl, by decide⟩
  reads {n} depth rest long _ := by
    cases entries with
    | nil =>
        rw [Value.chars] at long ⊢
        cases n with
        | zero => cases long
        | succ n => exact fun offset => ⟨_, rfl⟩
    | cons e es =>
        obtain ⟨k, v⟩ := e
        rw [Value.chars] at long ⊢
        simp only [plain, List.cons_append, List.append_assoc, List.length_cons, List.length_append,
          List.length_nil] at long ⊢
        obtain ⟨m, rfl⟩ := Nat.exists_eq_add_one_of_ne_zero (n := n) (by omega)
        exact reads_object (isSpace_newline l _) (by rw [stringText_append]; rfl)
          (reads_entries plain es [] _ _ each distinct (by omega))

mutual

theorem comesBack (plain : l.ascii = false) : ∀ v : Value, v.Readable limit → v.ComesBack l limit
  | .null, _ => comesBack_null
  | .bool b, _ => comesBack_bool b
  | .int _, readable => comesBack_int (by rwa [Value.Readable] at readable)
  | .real _, readable => by
      rw [Value.Readable] at readable
      exact readable.elim
  | .string s, _ => comesBack_string plain s
  | .array items, readable =>
      comesBack_array (itemsComeBack plain items (by rwa [Value.Readable] at readable))
  | .object entries, readable => by
      rw [Value.Readable] at readable
      exact comesBack_object plain readable.1 (entriesComeBack plain entries readable.2)

theorem itemsComeBack (plain : l.ascii = false) : ∀ items : List Value, itemsReadable limit items →
    ∀ v ∈ items, v.ComesBack l limit
  | [], _ => by simp
  | v :: vs, readable => by
      rw [itemsReadable] at readable
      exact List.forall_mem_cons.mpr ⟨comesBack plain v readable.1, itemsComeBack plain vs readable.2⟩

theorem entriesComeBack (plain : l.ascii = false) : ∀ entries : List (String × Value),
    entriesReadable limit entries → ∀ e ∈ entries, e.2.ComesBack l limit
  | [], _ => by simp
  | (_, v) :: es, readable => by
      rw [entriesReadable] at readable
      exact List.forall_mem_cons.mpr
        ⟨comesBack plain v readable.1, entriesComeBack plain es readable.2⟩

end

theorem read_chars (plain : l.ascii = false) {v : Value} (readable : v.Readable limit) (depth : Nat) :
    read (v.chars l depth) limit = .ok v := by
  have back := comesBack plain v readable
  obtain ⟨c, t, same, noSpace, _, noMark⟩ := back.begins depth
  have skipped := skipSpaces_eq (ends_of_begins (back.begins depth)) 0
  obtain ⟨offset', done⟩ := back.reads (n := 2 * (v.chars l depth).length + 2) depth []
    (by omega) (by simp [Stops]) 0
  rw [List.append_nil] at done
  rw [read]
  · rw [skipped, done]
    rfl
  · intro r mark
    rw [same] at mark
    exact noMark (List.cons.inj mark).1

end FileQuery.Json
