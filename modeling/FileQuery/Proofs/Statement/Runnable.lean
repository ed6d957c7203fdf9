import FileQuery.Proofs.Statement.Sound
import FileQuery.Proofs.Text.Integer

/-! # Statements that can be run

What is left to the one who runs a statement is safe to do without looking at its fields again
(`Statement.Runnable`): names are there, the wildcard stands only where it means something, a permission
mode is a number of nine bits, and a condition is a text that can be handed on. A line is a statement
that can be run, or none for a reason that is told (`Statement.parse_runnable`). -/
set_option autoImplicit false
namespace FileQuery

/-! ## Permission modes -/

/-- A permission mode is three octal digits, or four of which the first is a zero; a line feed may
stand behind them. -/
theorem digits_of_isPermissionMode {mode : List Char} (octal : isPermissionMode mode = true) :
    ∃ digits gap, mode = digits ++ gap ∧ (gap = [] ∨ gap = ['\n']) ∧ Text.Plain 8 digits ∧
      (digits.length = 3 ∨ ∃ r, digits = '0' :: r ∧ r.length = 3) := by
  have shape {digits gap : List Char} (same : mode = digits ++ gap) (blank : gap = [] ∨ gap = ['\n'])
      (octal : (digits.all (fun c => decide ('0' ≤ c) && decide (c ≤ '7')) &&
        (digits.length == 3 || (digits.length == 4 && digits.head? == some '0'))) = true) :
      ∃ digits gap, mode = digits ++ gap ∧ (gap = [] ∨ gap = ['\n']) ∧ Text.Plain 8 digits ∧
        (digits.length = 3 ∨ ∃ r, digits = '0' :: r ∧ r.length = 3) := by
    simp only [Bool.and_eq_true, Bool.or_eq_true, beq_iff_eq, List.all_eq_true, decide_eq_true_eq]
      at octal
    refine ⟨digits, gap, same, blank, ?_, octal.2.imp_right ?_⟩
    · intro c member
      obtain ⟨first, last⟩ := octal.1 c member
      exact ⟨UInt32.le_iff_toNat_le.mp first, Nat.lt_succ_of_le (UInt32.le_iff_toNat_le.mp last)⟩
    · rintro ⟨four, zero⟩
      obtain ⟨r, rfl⟩ := List.head?_eq_some_iff.mp zero
      exact ⟨r, rfl, by simpa using four⟩
  rw [isPermissionMode] at octal
  split at octal
  · next r reversed =>
      rw [List.reverse_eq_iff, List.reverse_cons] at reversed
      exact shape reversed (.inr rfl) octal
  · exact shape (List.append_nil mode).symm (.inl rfl) octal

theorem readOctal?_of_isPermissionMode {mode : List Char} (octal : isPermissionMode mode = true) :
    ∃ n : Nat, Text.readOctal? mode = some (n : Int) ∧ n ≤ 511 := by
  obtain ⟨digits, gap, rfl, blank, plain, short⟩ := digits_of_isPermissionMode octal
  have nonempty : digits ≠ [] := by
    rintro rfl
    rcases short with none | ⟨r, none, _⟩
    · cases none
    · cases none
  have trimmed : Text.trimInteger (digits ++ gap) = digits := by
    refine Text.trimInteger_append (fun c member => Text.isBlank_of_isDigit
      (plain.isDigit (by decide) member)) nonempty ?_
    rcases blank with rfl | rfl
    · simp
    · exact List.forall_mem_singleton.mpr rfl
  refine ⟨_, Text.readOctal?_of_trimInteger trimmed plain nonempty, ?_⟩
  rcases short with three | ⟨r, rfl, three⟩
  · have bound := Text.ofDigits_lt plain
    rw [three] at bound
    omega
  · have bound := Text.ofDigits_lt plain.tail
    have same : Text.ofDigits 8 (Text.valuesOf ('0' :: r)) = Text.ofDigits 8 (Text.valuesOf r) := rfl
    rw [three] at bound
    omega

/-! ## Fields -/

namespace Statement

/-- The name that READ, DELETE, MOVE and COPY work on; the wildcard may stand for it. -/
def subject? : Statement → Option String
  | read name | delete _ name | transfer _ _ name _ => some name
  | _ => none

/-- All other names, paths and targets in a statement. -/
def places : Statement → List String
  | load path => [path]
  | create _ name | edit name | use name | write name _ | append name _ | chmod name _ => [name]
  | transfer _ _ _ target => [target]
  | rename _ old new => [old, new]
  | merge sources destination => sources ++ [destination]
  | deleteAll _ source => source.folder.toList
  | transferAll _ _ target source => target :: source.folder.toList
  | select _ source _ into => source.folder.toList ++ into.toList
  | read _ | delete _ _ | drop | list _ | count _ | unknown _ _ => []

/-- The condition of a statement, with the keywords that would have ended it. -/
def condition? : Statement → Option (List String × String)
  | deleteAll _ source => source.clause.map fun c => ([], c)
  | transferAll _ _ _ source => source.clause.map fun c => (["TO"], c)
  | select _ source _ _ => source.clause.map fun c => (["ORDER", "INTO"], c)
  | _ => none

/-- Whether the fields of a statement are such that it can be run. -/
structure Runnable (s : Statement) : Prop where
  subject : ∀ name ∈ s.subject?, name ≠ ""
  places : ∀ name ∈ s.places, name ≠ "" ∧ name ≠ wildcard
  script : ∀ path, s = load path → isScriptName path = true
  mode : ∀ name mode, s = chmod name mode →
    ∃ n : Nat, Text.readOctal? mode.toList = some (n : Int) ∧ n ≤ 511
  sources : ∀ sources destination, s = merge sources destination → sources ≠ []
  condition : ∀ terminators text, s.condition? = some (terminators, text) →
    text ≠ "" ∧ Text.trim text.toList = text.toList ∧
      ∃ ts, tokenize text.toList = .ok ts ∧ Unended terminators ts
  order : ∀ kind source o into, s = select kind source (some o) into →
    Token.Bare o.field.toList ∧ ¬ Token.Spells "INTO" o.field.toList

section Printable
variable {s : Statement} (printable : s.Printable)
include printable

theorem Printable.subject : ∀ name ∈ s.subject?, name ≠ "" := by
  intro name member
  cases s with
  | read n | delete kind n =>
      obtain rfl := Option.some.inj member
      exact printable
  | transfer mode kind n target =>
      obtain rfl := Option.some.inj member
      exact printable.1
  | _ => cases member

theorem Printable.places : ∀ name ∈ s.places, name ≠ "" ∧ name ≠ wildcard := by
  intro name member
  cases s with
  | load n | write n _ | append n _ | chmod n _ =>
      obtain rfl := List.mem_singleton.mp member
      exact printable.1
  | create kind n | edit n | use n =>
      obtain rfl := List.mem_singleton.mp member
      exact printable
  | transfer mode kind n target =>
      obtain rfl := List.mem_singleton.mp member
      exact printable.2
  | rename kind old new =>
      simp only [Statement.places, List.mem_cons, List.not_mem_nil, or_false] at member
      rcases member with rfl | rfl
      · exact printable.1
      · exact printable.2
  | merge sources destination =>
      rcases List.mem_append.mp member with source | target
      · exact printable.2.1 name source
      · obtain rfl := List.mem_singleton.mp target
        exact printable.2.2
  | deleteAll kind source => exact printable.folder name (Option.mem_toList.mp member)
  | transferAll mode kind target source =>
      rcases List.mem_cons.mp member with rfl | folder
      · exact printable.1
      · exact printable.2.folder name (Option.mem_toList.mp folder)
  | select kind source spec into =>
      rcases List.mem_append.mp member with folder | file
      · exact printable.1.folder name (Option.mem_toList.mp folder)
      · exact printable.2.2 name (Option.mem_toList.mp file)
  | _ => cases member

theorem Printable.condition {terminators : List String} {text : String}
    (found : s.condition? = some (terminators, text)) :
    ∃ followed, ConditionText terminators followed text := by
  cases s with
  | deleteAll kind source =>
      obtain ⟨c, member, same⟩ := Option.map_eq_some_iff.mp found
      obtain ⟨rfl, rfl⟩ := Prod.mk.inj same
      exact ⟨_, printable.clause c member⟩
  | transferAll mode kind target source =>
      obtain ⟨c, member, same⟩ := Option.map_eq_some_iff.mp found
      obtain ⟨rfl, rfl⟩ := Prod.mk.inj same
      exact ⟨_, printable.2.clause c member⟩
  | select kind source spec into =>
      obtain ⟨c, member, same⟩ := Option.map_eq_some_iff.mp found
      obtain ⟨rfl, rfl⟩ := Prod.mk.inj same
      exact ⟨_, printable.1.clause c member⟩
  | _ => cases found

theorem Printable.runnable : s.Runnable where
  subject := printable.subject
  places := printable.places
  script := by
    rintro path rfl
    exact printable.2
  mode := by
    rintro name mode rfl
    exact readOctal?_of_isPermissionMode printable.2.2
  sources := by
    rintro sources destination rfl
    exact printable.1
  condition := by
    intro terminators text found
    obtain ⟨_, trimmed, ts, read, some, unended, _⟩ := printable.condition found
    refine ⟨?_, trimmed, ts, read, unended⟩
    rintro rfl
    exact some ((Token.tokenize_eq_ok_iff.mp read).eq_nil rfl)
  order := by
    rintro kind source o into rfl
    exact printable.2.1 o rfl

end Printable

end Statement

theorem SyntaxError.message_ne_empty (e : SyntaxError) : e.message ≠ "" := by
  have lead {a : String} (some : a ≠ "") (b : String) : a ++ b ≠ "" :=
    fun none => some (String.append_eq_empty_iff.mp none).1
  cases e with
  | noCommand | noCondition | noSortField | noMergeSource | notAScript => decide
  | unterminatedString _ | unknownCommand _ | wildcardRefused _ | emptyString _ =>
      exact lead (by decide) _
  | unexpectedToken _ _ | invalidMode _ | loadTooDeep _ =>
      refine lead (lead ?_ _) _
      decide
  | expectedKeyword _ _ | expectedString _ _ =>
      refine lead (lead (lead ?_ _) _) _
      decide

namespace Statement

/-- A line is either no statement, for a reason that is told, or a statement that can be run. -/
theorem parse_runnable (line : String) :
    (∃ reason, parse line = .unknown (String.ofList (Text.trim line.toList)) reason ∧
      reason.message ≠ "") ∨
    (∀ text reason, parse line ≠ .unknown text reason) ∧ (parse line).Runnable := by
  rw [parse]
  cases read : read? (Text.trim line.toList) with
  | error reason => exact .inl ⟨reason, rfl, reason.message_ne_empty⟩
  | ok s =>
      have printable := printable_of_read? read
      refine .inr ⟨?_, printable.runnable⟩
      rintro text reason rfl
      exact printable

end Statement

end FileQuery
