import FileQuery.Proofs.Table.Rich
import FileQuery.Proofs.Text.Width

/-! What stands in a column that is wide enough. A text that nothing in it breaks or moves is set on
one line, as it is but for blanks at its end that may be dropped. -/
set_option autoImplicit false
namespace FileQuery.Table

open Text (cells isBlank trim trimStart trimEnd Blanks)

section Calm
variable {s : List Char}

theorem visible_calm (calm : Calm s) : visible s = s := by
  rw [visible, List.filter_eq_self]
  intro c member
  have still := calm c member
  cases hidden : ['\x07', '\x08', '\x0b', '\x0c', '\r'].contains c with
  | false => rfl
  | true =>
      simp only [List.contains_eq_mem, List.mem_cons, List.not_mem_nil, or_false,
        decide_eq_true_eq] at hidden
      rcases hidden with rfl | rfl | rfl | rfl | rfl <;> cases still

theorem splitAtLineFeeds_single (noFeed : '\n' ∉ s) : splitAtLineFeeds s = [s] := by
  induction s with
  | nil => rfl
  | cons c r ih =>
      rw [List.mem_cons, not_or] at noFeed
      rw [splitAtLineFeeds, List.foldr_cons, ← splitAtLineFeeds, ih noFeed.2,
        if_neg (Ne.symm noFeed.1)]
      rfl

theorem expandTabs_of_noTab (noTab : '\t' ∉ s) (stop : Nat) (part : List Char) :
    expandTabs stop part s = part ++ s := by
  induction s generalizing part with
  | nil => rw [expandTabs, List.append_nil]
  | cons c r ih =>
      rw [List.mem_cons, not_or] at noTab
      rw [expandTabs, ih noTab.2, List.append_assoc]
      · rfl
      · exact fun same => noTab.1 same.symm

theorem splitLines_calm (calm : Calm s) (filled : s ≠ []) : Text.splitLines s = [s] := by
  induction s with
  | nil => exact absurd rfl filled
  | cons c r ih =>
      have plain := calm.isBreak List.mem_cons_self
      have noReturn : c ≠ '\r' := by
        rintro rfl
        cases plain
      rw [Text.splitLines_cons noReturn, plain, if_neg Bool.false_ne_true]
      cases r with
      | nil => rfl
      | cons d r =>
          rw [ih (calm.mono (List.subset_cons_self _ _)) (List.cons_ne_nil _ _)]
          rfl

theorem askedWidth_calm (calm : Calm s) : askedWidth s = cells s := by
  rw [askedWidth, visible_calm calm]
  by_cases filled : s = []
  · subst filled
    rfl
  · rw [splitLines_calm calm filled]
    exact Nat.zero_max _

end Calm

/-! Words that fit are set on one line. -/

/-- Words each of which has blanks behind it, except for the last. -/
def Spaced : List (List Char) → Prop
  | [] => True
  | [_] => True
  | w :: ws => (∃ c ∈ w.getLast?, isBlank c = true) ∧ Spaced ws

section Words
variable {s : List Char}

theorem blankedWords_blank (blanks : trimStart s = []) : blankedWords s = [] := by
  rw [blankedWords]
  split
  · rfl
  · next c r same =>
      rw [blanks] at same
      cases same

theorem trimStart_trimStart (s : List Char) : trimStart (trimStart s) = trimStart s :=
  List.dropWhile_idempotent isBlank s

theorem flatten_blankedWords (word : trimStart s ≠ []) : (blankedWords s).flatten = s := by
  fun_induction blankedWords s with
  | case1 s none => exact absurd none word
  | case2 s c r same rest ih =>
      have behind : (blankedWords (trimStart rest)).flatten = trimStart rest := by
        by_cases more : trimStart rest = []
        · rw [more, blankedWords_blank rfl]
          rfl
        · exact ih (by rwa [trimStart_trimStart])
      have whole : s.takeWhile isBlank ++ (c :: r) = s := by
        rw [← same, trimStart, List.takeWhile_append_dropWhile]
      have cut : (Text.cutWord r).1 ++ rest = r := List.takeWhile_append_dropWhile
      have gap : rest.takeWhile isBlank ++ trimStart rest = rest := List.takeWhile_append_dropWhile
      rw [List.flatten_cons, behind]
      conv_rhs => rw [← whole, ← cut, ← gap]
      simp only [List.append_assoc, List.cons_append]

theorem cutWord_rest (r : List Char) : ∀ c ∈ (Text.cutWord r).2.head?, isBlank c = true := by
  intro c first
  have stops := List.head?_dropWhile_not (fun c => !isBlank c) r
  rw [Text.cutWord, Option.mem_def] at first
  rw [first] at stops
  simpa using stops

theorem Spaced.cons {w : List Char} {ws : List (List Char)} (spaced : Spaced ws)
    (parted : ws = [] ∨ ∃ c ∈ w.getLast?, isBlank c = true) : Spaced (w :: ws) := by
  cases ws with
  | nil => exact trivial
  | cons w' ws =>
      rcases parted with none | blank
      · cases none
      · exact ⟨blank, spaced⟩

theorem Spaced.tail {w : List Char} {ws : List (List Char)} (spaced : Spaced (w :: ws)) :
    Spaced ws := by
  cases ws with
  | nil => exact trivial
  | cons w' ws => exact spaced.2

theorem Spaced.blank {w : List Char} {ws : List (List Char)} (spaced : Spaced (w :: ws))
    (more : ws ≠ []) : ∃ c ∈ w.getLast?, isBlank c = true := by
  cases ws with
  | nil => exact absurd rfl more
  | cons w' ws => exact spaced.1

theorem spaced_blankedWords (s : List Char) : Spaced (blankedWords s) := by
  fun_induction blankedWords s with
  | case1 s none => exact trivial
  | case2 s c r same rest ih =>
      refine ih.cons ?_
      by_cases gap : rest.takeWhile isBlank = []
      · left
        have finished : rest = [] := by
          by_contra more
          obtain ⟨d, t, shape⟩ := List.exists_cons_of_ne_nil more
          have blank : isBlank d = true := cutWord_rest r d (congrArg List.head? shape)
          rw [shape, List.takeWhile_cons, if_pos blank] at gap
          cases gap
        rw [finished]
        exact blankedWords_blank rfl
      · right
        have last := List.getLast?_eq_some_getLast gap
        refine ⟨_, Text.mem_getLast_append last _, ?_⟩
        exact List.mem_takeWhile_imp (List.getLast_mem gap)

/-- Words that are all within the width stay on the line that has been begun. -/
theorem fillLines_fits {width used : Nat} {line : List Char} {ws : List (List Char)}
    (count : used ≤ cells line) (ends : ws ≠ [] → line.getLast? ≠ some Text.joiner)
    (spaced : Spaced ws) (fits : cells (line ++ ws.flatten) ≤ width) :
    fillLines width line used ws = [line ++ ws.flatten] := by
  induction ws generalizing line used with
  | nil => rw [fillLines, List.flatten_nil, List.append_nil]
  | cons w ws ih =>
      rw [List.flatten_cons, ← List.append_assoc] at fits ⊢
      have apart := Text.cells_add_le (ends (List.cons_ne_nil _ _)) w
      have own : cells (trimEnd w) ≤ cells w := by
        obtain ⟨trail, -, same⟩ := Text.exists_trimEnd w
        conv_rhs => rw [same]
        exact Text.cells_le_append _ _
      have front := Text.cells_le_append (line ++ w) ws.flatten
      have takes : used + cells (trimEnd w) ≤ width := by omega
      rw [fillLines, if_pos takes]
      refine ih (by omega) (fun more joins => ?_) spaced.tail fits
      obtain ⟨c, last, blank⟩ := spaced.blank more
      rw [Option.mem_def.mp (Text.mem_getLast_append last line)] at joins
      cases joins
      cases blank

end Words

section Line
variable {s : List Char} {width : Nat}

theorem dropExcess_front (width : Nat) (s : List Char) : dropExcess width s <+: s :=
  List.take_prefix _ _

theorem cells_dropExcess_le (width : Nat) (s : List Char) :
    cells (dropExcess width s) ≤ cells s := by
  obtain ⟨dropped, same⟩ := dropExcess_front width s
  conv_rhs => rw [← same]
  exact Text.cells_le_append _ _

theorem exists_dropExcess (width : Nat) (s : List Char) :
    ∃ blanks, Blanks blanks ∧ dropExcess width s ++ blanks = s := by
  obtain ⟨trail, blanks, same⟩ := Text.exists_trimEnd s
  have short := Text.trimEnd_length_le s
  obtain ⟨n, kept, shape⟩ : ∃ n, (trimEnd s).length ≤ n ∧ dropExcess width s = s.take n :=
    ⟨_, by omega, rfl⟩
  refine ⟨s.drop n, fun c member => ?_, by rw [shape, List.take_append_drop]⟩
  rw [same, List.drop_append, List.drop_eq_nil_of_le kept, List.nil_append] at member
  exact blanks c (List.mem_of_mem_drop member)

theorem truncate_fits {line : List Char} (fits : cells line ≤ width) : truncate width line = line :=
  if_neg (Nat.not_lt.mpr fits)

theorem cellLines_calm (calm : Calm s) (fits : cells s ≤ width) :
    cellLines width s = [dropExcess width s] := by
  have within : cells (dropExcess width s) ≤ width :=
    Nat.le_trans (cells_dropExcess_le width s) fits
  have one : trimStart s ≠ [] → fillLines width [] 0 (blankedWords s) = [s] := fun word => by
    have whole := flatten_blankedWords word
    rw [fillLines_fits (Nat.zero_le _) (fun _ => by decide) (spaced_blankedWords s)
      (by rwa [whole]), whole, List.nil_append]
  rw [cellLines, visible_calm calm, splitAtLineFeeds_single (calm.not_mem rfl)]
  simp only [List.flatMap_cons, List.flatMap_nil, List.append_nil]
  rw [expandTabs_of_noTab (calm.not_mem rfl), List.nil_append]
  split
  · rw [List.map_singleton, truncate_fits within]
  · next _ words =>
      have word : trimStart s ≠ [] := fun none => words (blankedWords_blank none)
      rw [one word, List.map_singleton, truncate_fits within]

end Line

end FileQuery.Table
