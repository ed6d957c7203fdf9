import FileQuery.Proofs.Editor
import FileQuery.Proofs.Text.Blank

/-! Which command a typed line calls. Behind the colon stand the name of the command, in any case, and
its argument, with blanks as one likes. -/
set_option autoImplicit false
namespace FileQuery.Editor

open Text (Blanks trim trimStart cutWord lower)

/-- A typed line that calls a command: a colon, the name of the command in any case, and behind a
gap its argument, with blanks around. -/
inductive Calls (name argument line : String) : Prop
  | mk (lead word gap trail : List Char)
    (spelled : line.toList = ':' :: (lead ++ (word ++ (gap ++ (argument.toList ++ trail)))))
    (leads : Blanks lead) (solid : ∀ c ∈ word, Text.isBlank c = false)
    (called : lower word = name.toList) (gaps : Blanks gap) (parted : gap = [] → argument = "")
    (trimmed : trim argument.toList = argument.toList) (trails : Blanks trail)

section Words
variable {word gap argument lead trail : List Char}

theorem cutWord_solid (solid : ∀ c ∈ word, Text.isBlank c = false) (gaps : Blanks gap)
    (parted : gap = [] → argument = []) :
    cutWord (word ++ (gap ++ argument)) = (word, gap ++ argument) := by
  have inside : ∀ c ∈ word, (!Text.isBlank c) = true := fun c member => by rw [solid c member]; rfl
  rw [cutWord, List.takeWhile_append_of_pos inside, List.dropWhile_append_of_pos inside]
  cases gap with
  | nil => simp [parted rfl]
  | cons c gap => simp [gaps c List.mem_cons_self]

theorem trim_called (leads : Blanks lead) (filled : word ≠ [])
    (solid : ∀ c ∈ word, Text.isBlank c = false) (gaps : Blanks gap)
    (trimmed : trim argument = argument) (trails : Blanks trail) :
    trim (lead ++ (word ++ (gap ++ (argument ++ trail)))) =
      if argument = [] then word else word ++ (gap ++ argument) := by
  have own : trim word = word := by
    rw [Text.trim_eq_self_iff]
    exact ⟨fun c first => solid c (List.mem_of_mem_head? first),
      fun c last => solid c (List.mem_of_mem_getLast? last)⟩
  split
  · next empty =>
      subst empty
      have behind : Blanks (gap ++ trail) := by
        intro c member
        rcases List.mem_append.mp member with inGap | inTrail
        · exact gaps c inGap
        · exact trails c inTrail
      rw [List.nil_append, ← List.append_assoc, Text.trim_pad leads behind, own]
  · next filled' =>
      have regrouped : lead ++ (word ++ (gap ++ (argument ++ trail))) =
          lead ++ (word ++ (gap ++ argument)) ++ trail := by simp only [List.append_assoc]
      rw [regrouped, Text.trim_pad leads trails]
      exact Text.trim_between own trimmed filled filled' gap

theorem cutWord_trimmed {core : List Char} (trimmed : trim core = core) :
    ∃ gap, Blanks gap ∧ core = (cutWord core).1 ++ (gap ++ trimStart (cutWord core).2) ∧
      (gap = [] → trimStart (cutWord core).2 = []) ∧
      trim (trimStart (cutWord core).2) = trimStart (cutWord core).2 := by
  have cut : core = (cutWord core).1 ++ (cutWord core).2 := List.takeWhile_append_dropWhile.symm
  have first : ∀ c ∈ (cutWord core).2.head?, Text.isBlank c = true := by
    intro c member
    have blank := List.head?_dropWhile_not (fun c => !Text.isBlank c) core
    rw [show (core.dropWhile _).head? = some c from member] at blank
    simpa using blank
  have ends := (Text.trim_eq_self_iff.mp trimmed).2
  generalize (cutWord core).2 = behind at cut first ⊢
  have gap : behind = behind.takeWhile Text.isBlank ++ trimStart behind :=
    List.takeWhile_append_dropWhile.symm
  refine ⟨behind.takeWhile Text.isBlank, fun c member => List.mem_takeWhile_imp member, ?_, ?_, ?_⟩
  · rw [← gap]
    exact cut
  · intro none
    cases behind with
    | nil => rfl
    | cons c r => simp [first c rfl] at none
  · rw [Text.trim_eq_self_iff, ← Text.trimStart_eq_self_iff]
    refine ⟨List.dropWhile_idempotent _ behind, fun c last => ends c ?_⟩
    rw [cut, gap]
    exact Text.mem_getLast_append (Text.mem_getLast_append last _) _

end Words

theorem calls_iff {name argument line : String} (named : name ≠ "") :
    Calls name argument line ↔ ∃ text, line.toList = ':' :: text ∧
      String.ofList (lower (cutWord (trim text)).1) = name ∧
      String.ofList (trimStart (cutWord (trim text)).2) = argument := by
  constructor
  · rintro ⟨lead, word, gap, trail, spelled, leads, solid, called, gaps, parted, trimmed, trails⟩
    have filled : word ≠ [] := by
      rintro rfl
      exact named (String.toList_inj.mp called.symm)
    refine ⟨_, spelled, ?_⟩
    rw [trim_called leads filled solid gaps trimmed trails]
    have start : trimStart argument.toList = argument.toList :=
      Text.trimStart_eq_self_iff.mpr (Text.trim_eq_self_iff.mp trimmed).1
    split
    · next empty =>
        have alone : cutWord (word ++ ([] ++ [])) = (word, [] ++ []) :=
          cutWord_solid solid Text.blanks_nil fun _ => rfl
        rw [List.nil_append, List.append_nil] at alone
        rw [alone, called, String.ofList_toList]
        exact ⟨rfl, String.toList_inj.mp (by rw [empty]; rfl)⟩
    · next filled' =>
        have cut : cutWord (word ++ (gap ++ argument.toList)) = (word, gap ++ argument.toList) :=
          cutWord_solid solid gaps fun empty => by rw [parted empty]; rfl
        rw [cut, called, String.ofList_toList]
        dsimp only
        rw [trimStart, List.dropWhile_append_of_pos gaps]
        exact ⟨rfl, by rw [← trimStart, start, String.ofList_toList]⟩
  · rintro ⟨text, spelled, rfl, rfl⟩
    obtain ⟨lead, trail, leads, trails, same⟩ := Text.exists_trim text
    obtain ⟨gap, gaps, parts, parted, trimmed⟩ := cutWord_trimmed (Text.trim_trim text)
    refine ⟨lead, (cutWord (trim text)).1, gap, trail, ?_, leads, ?_, ?_, gaps, ?_, ?_, trails⟩
    · rw [spelled, String.toList_ofList]
      conv_lhs => rw [same, parts]
      simp only [List.append_assoc]
    · intro c member
      simpa using List.mem_takeWhile_imp member
    · exact String.toList_ofList.symm
    · intro none
      rw [parted none]
    · rwa [String.toList_ofList]

section Commands
variable {line : String}

theorem command?_eq_some_iff {c : Command} :
    command? line = some c ↔ ∃ text, line.toList = ':' :: text ∧ Command.ofText text = c := by
  unfold command?
  split
  · next text same => simp [same]
  · next other =>
      refine iff_of_false (by simp) ?_
      rintro ⟨text, same, -⟩
      exact other text same

theorem ofText_cases (text : List Char) :
    let name := String.ofList (lower (cutWord (trim text)).1)
    let argument := String.ofList (trimStart (cutWord (trim text)).2)
    (Command.ofText text = .save ↔ name = "save") ∧ (Command.ofText text = .exit ↔ name = "exit") ∧
      (Command.ofText text = .undo ↔ name = "undo") ∧
      ∀ file, Command.ofText text = .load file ↔ name = "load" ∧ argument = file := by
  dsimp only
  unfold Command.ofText
  dsimp only
  split <;> simp_all

theorem command?_eq_save_iff :
    command? line = some .save ↔ ∃ argument, Calls "save" argument line := by
  simp only [command?_eq_some_iff, calls_iff (show "save" ≠ "" by decide), (ofText_cases _).1]
  simp

theorem command?_eq_exit_iff :
    command? line = some .exit ↔ ∃ argument, Calls "exit" argument line := by
  simp only [command?_eq_some_iff, calls_iff (show "exit" ≠ "" by decide), (ofText_cases _).2.1]
  simp

theorem command?_eq_undo_iff :
    command? line = some .undo ↔ ∃ argument, Calls "undo" argument line := by
  simp only [command?_eq_some_iff, calls_iff (show "undo" ≠ "" by decide), (ofText_cases _).2.2.1]
  simp

theorem command?_eq_load_iff {file : String} :
    command? line = some (.load file) ↔ Calls "load" file line := by
  simp only [command?_eq_some_iff, calls_iff (show "load" ≠ "" by decide), (ofText_cases _).2.2.2]

theorem command?_eq_none_iff : command? line = none ↔ line.toList.head? ≠ some ':' := by
  unfold command?
  split
  · next text same => simp [same]
  · next other =>
      refine iff_of_true rfl fun first => ?_
      obtain ⟨text, same⟩ := List.head?_eq_some_iff.mp first
      exact other text same

theorem Calls.colon {name argument : String} (calls : Calls name argument line) :
    line.toList.head? = some ':' := by
  obtain ⟨_, _, _, _, spelled, _⟩ := calls
  rw [spelled]
  rfl

end Commands

def Closes (line : String) : Prop :=
  ∃ argument, Calls "save" argument line ∨ Calls "exit" argument line

theorem closes_iff {line : String} :
    Closes line ↔ command? line = some .save ∨ command? line = some .exit := by
  rw [command?_eq_save_iff, command?_eq_exit_iff, Closes, exists_or]

instance (line : String) : Decidable (Closes line) := decidable_of_iff _ closes_iff.symm

end FileQuery.Editor
