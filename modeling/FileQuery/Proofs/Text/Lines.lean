import FileQuery.Text.Lines
import Mathlib.Data.List.Basic

/-! Texts that are cut into lines and joined again by line feeds. Every break has become a line feed
then and the one at the end is gone, so a text without that end comes back as it was just when it
has no breaks but line feeds. -/
set_option autoImplicit false
namespace FileQuery.Text

variable {c : Char} {r s : List Char}

theorem splitLines_cons (noReturn : c ≠ '\r') (r : List Char) :
    splitLines (c :: r) =
      if isBreak c then [] :: splitLines r else consLine c (splitLines r) := by
  rw [splitLines]
  exact fun _ same => absurd same noReturn

theorem splitLines_ne_nil (noReturn : c ≠ '\r') (r : List Char) : splitLines (c :: r) ≠ [] := by
  rw [splitLines_cons noReturn]
  split
  · exact List.cons_ne_nil _ _
  · cases splitLines r <;> exact List.cons_ne_nil _ _

def relined (s : List Char) : List Char := ['\n'].intercalate (splitLines s)

theorem relined_break (noReturn : '\r' ∉ c :: r) (breaks : isBreak c = true) (more : r ≠ []) :
    relined (c :: r) = '\n' :: relined r := by
  rw [List.mem_cons, not_or] at noReturn
  obtain ⟨d, r, rfl⟩ := List.exists_cons_of_ne_nil more
  have plain : d ≠ '\r' := fun same => noReturn.2 (same ▸ List.mem_cons_self)
  obtain ⟨l, ls, lines⟩ := List.exists_cons_of_ne_nil (splitLines_ne_nil plain r)
  rw [relined, splitLines_cons (Ne.symm noReturn.1), if_pos breaks, relined, lines,
    List.intercalate_cons_cons]
  rfl

theorem relined_last_break (breaks : isBreak c = true) : relined [c] = [] := by
  by_cases same : c = '\r'
  · subst same
    rfl
  · rw [relined, splitLines_cons same, if_pos breaks]
    rfl

theorem relined_plain (plain : isBreak c = false) (r : List Char) :
    relined (c :: r) = c :: relined r := by
  have noReturn : c ≠ '\r' := by
    rintro rfl
    cases plain
  rw [relined, splitLines_cons noReturn, plain, if_neg Bool.false_ne_true, relined]
  cases splitLines r with
  | nil => rfl
  | cons l ls =>
      cases ls with
      | nil => simp [consLine]
      | cons l' ls => rw [consLine, List.intercalate_cons_cons, List.intercalate_cons_cons]; rfl

def OnlyFeeds (s : List Char) : Prop := ∀ c ∈ s, isBreak c = true → c = '\n'

instance (s : List Char) : Decidable (OnlyFeeds s) := List.decidableBAll _ s

theorem OnlyFeeds.mono {a b : List Char} (feeds : OnlyFeeds b) (inside : a ⊆ b) : OnlyFeeds a :=
  fun c member => feeds c (inside member)

theorem OnlyFeeds.noReturn (feeds : OnlyFeeds s) : '\r' ∉ s := fun member => by
  have same := feeds '\r' member rfl
  cases same

theorem onlyFeeds_cons : OnlyFeeds (c :: r) ↔ (isBreak c = true → c = '\n') ∧ OnlyFeeds r := by
  rw [OnlyFeeds, List.forall_mem_cons, OnlyFeeds]

theorem onlyFeeds_relined (noReturn : '\r' ∉ s) : OnlyFeeds (relined s) := by
  induction s with
  | nil => exact nofun
  | cons c r ih =>
      have behind := ih fun member => noReturn (List.mem_cons_of_mem c member)
      cases breaks : isBreak c with
      | false =>
          rw [relined_plain breaks, onlyFeeds_cons, breaks]
          exact ⟨nofun, behind⟩
      | true =>
          by_cases more : r = []
          · rw [more, relined_last_break breaks]
            exact nofun
          · rw [relined_break noReturn breaks more, onlyFeeds_cons]
            exact ⟨fun _ => rfl, behind⟩

/-! The end of a text file's last line. -/

/-- What ends a line of a text file, or nothing. -/
def lineEnds : List (List Char) := [[], ['\n'], ['\r', '\n'], ['\r']]

def withoutEnd : List Char → List Char
  | [] => []
  | ['\n'] => []
  | ['\r', '\n'] => []
  | ['\r'] => []
  | c :: r => c :: withoutEnd r

theorem exists_withoutEnd (s : List Char) : ∃ e ∈ lineEnds, s = withoutEnd s ++ e := by
  fun_induction withoutEnd s with
  | case1 | case2 | case3 | case4 => exact ⟨_, by decide, rfl⟩
  | case5 c r _ _ _ ih =>
      obtain ⟨e, member, same⟩ := ih
      exact ⟨e, member, congrArg (c :: ·) same⟩

theorem withoutEnd_cons (other : c ≠ '\r') (more : r ≠ []) :
    withoutEnd (c :: r) = c :: withoutEnd r := by
  rw [withoutEnd]
  · exact fun _ same => more same
  · exact fun same _ => other same
  · exact fun same _ => other same

theorem withoutEnd_append (noReturn : '\r' ∉ s) {e : List Char} (ends : e ∈ lineEnds)
    (filled : e ≠ []) : withoutEnd (s ++ e) = s := by
  induction s with
  | nil =>
      simp only [lineEnds, List.mem_cons, List.not_mem_nil, or_false] at ends
      rcases ends with rfl | rfl | rfl | rfl
      · exact absurd rfl filled
      · rfl
      · rfl
      · rfl
  | cons c r ih =>
      rw [List.mem_cons, not_or] at noReturn
      rw [List.cons_append, withoutEnd_cons (Ne.symm noReturn.1) (by simp [filled]), ih noReturn.2]

theorem withoutEnd_subset (s : List Char) : withoutEnd s ⊆ s := by
  obtain ⟨e, -, same⟩ := exists_withoutEnd s
  conv_rhs => rw [same]
  exact List.subset_append_left _ _

end FileQuery.Text
