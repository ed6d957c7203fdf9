import FileQuery.Proofs.Statement.Takes

/-! # What tokens span

Tokens that stand next to each other in a line span a text without blanks at its ends, which has the
same tokens when it stands alone (`Token.Scans.spanned`, `Token.Scans.unshift`). So the text that is cut
out of a line as a condition is one: its tokens are those that were cut off, and nothing in it would
have ended it (`of_conditionText`). -/
set_option autoImplicit false
namespace FileQuery

namespace Token.Scans

theorem blanks_of_nil {offset : Nat} {s : List Char} (scans : Scans offset s []) : Text.Blanks s := by
  generalize none : ([] : List Token) = ts at scans
  induction scans with
  | nil => exact Text.blanks_nil
  | blank blank _ ih => exact Text.blanks_cons.mpr ⟨blank, ih none⟩
  | string | opening | closing | word => cases none

theorem bare_of_mem {offset : Nat} {s : List Char} {ts : List Token} (scans : Scans offset s ts) :
    ∀ t ∈ ts, t.kind = .word → Bare t.value.toList := by
  induction scans with
  | nil => simp
  | blank _ _ ih => exact ih
  | string _ _ _ ih | opening _ ih | closing _ ih =>
      exact List.forall_mem_cons.mpr ⟨(fun word => nomatch word), ih⟩
  | word bare _ _ ih =>
      refine List.forall_mem_cons.mpr ⟨fun _ => ?_, ih⟩
      rwa [ofWord, String.toList_ofList]

theorem everywhere {offset : Nat} {s : List Char} {ts : List Token} (scans : Scans offset s ts) :
    ∀ n, ∃ us, Scans n s us := by
  induction scans with
  | nil => exact fun n => ⟨_, .nil n⟩
  | blank blank _ ih =>
      intro n
      obtain ⟨us, rest⟩ := ih (n + 1)
      exact ⟨us, .blank blank rest⟩
  | @string _ _ body _ _ quote enclosed _ ih =>
      intro n
      obtain ⟨us, rest⟩ := ih (n + body.length + 2)
      exact ⟨_, .string quote enclosed rest⟩
  | opening _ ih =>
      intro n
      obtain ⟨us, rest⟩ := ih (n + 1)
      exact ⟨_, .opening rest⟩
  | closing _ ih =>
      intro n
      obtain ⟨us, rest⟩ := ih (n + 1)
      exact ⟨_, .closing rest⟩
  | @word _ w _ _ bare ends _ ih =>
      intro n
      obtain ⟨us, rest⟩ := ih (n + w.length)
      exact ⟨_, .word bare ends rest⟩

theorem unshift {n k : Nat} {s : List Char} {ts : List Token} (scans : Scans (n + k) s ts) :
    ∃ us, Scans n s us ∧ us.map (Token.shift k) = ts := by
  obtain ⟨us, there⟩ := scans.everywhere n
  refine ⟨us, there, ?_⟩
  have both := (scan_of_scans (there.shift k)).symm.trans (scan_of_scans scans)
  exact Except.ok.inj both

theorem head_solid {offset : Nat} {s : List Char} {t : Token} {ts : List Token}
    (scans : Scans offset s (t :: ts)) (start : t.start = offset) :
    ∀ c ∈ s.head?, Text.isBlank c = false := by
  cases scans with
  | blank _ rest =>
      have late := rest.offset_le_start t (by simp)
      omega
  | string quote _ _ =>
      rintro c ⟨⟩
      exact isBlank_of_isQuote quote
  | opening | closing =>
      rintro c ⟨⟩
      decide
  | word bare _ _ =>
      intro c first
      rw [List.head?_append_of_ne_nil _ bare.nonempty] at first
      exact (isWordChar_iff.mp (bare.plain c (List.mem_of_mem_head? first))).1

theorem spanned_step {offset : Nat} {a r : List Char} {t : Token} {ts : List Token}
    (solid : ∀ c ∈ a.getLast?, Text.isBlank c = false) (rest : Scans (offset + a.length) r ts)
    (extend : ∀ l x us, r = l ++ x → Scans (offset + a.length) l us → Scans offset (a ++ l) (t :: us))
    (ih : ts ≠ [] → ∃ m gap, r = m ++ gap ∧ Text.Blanks gap ∧ Scans (offset + a.length) m ts ∧
      ∀ c ∈ m.getLast?, Text.isBlank c = false) :
    ∃ m gap, a ++ r = m ++ gap ∧ Text.Blanks gap ∧ Scans offset m (t :: ts) ∧
      ∀ c ∈ m.getLast?, Text.isBlank c = false := by
  cases ts with
  | nil =>
      have here := extend [] r [] rfl (.nil _)
      rw [List.append_nil] at here
      exact ⟨a, r, rfl, rest.blanks_of_nil, here, solid⟩
  | cons u us =>
      obtain ⟨m, gap, rfl, blanks, inner, last⟩ := ih (by simp)
      have some : m ≠ [] := by
        rintro rfl
        cases inner.eq_nil rfl
      refine ⟨a ++ m, gap, by rw [List.append_assoc], blanks, extend m gap _ rfl inner, ?_⟩
      rwa [List.getLast?_append_of_ne_nil _ some]

/-- Without the blanks behind them, tokens are those of a text that ends with no blank. -/
theorem spanned {offset : Nat} {s : List Char} {ts : List Token} (scans : Scans offset s ts)
    (some : ts ≠ []) : ∃ m gap, s = m ++ gap ∧ Text.Blanks gap ∧ Scans offset m ts ∧
      ∀ c ∈ m.getLast?, Text.isBlank c = false := by
  induction scans with
  | nil => exact absurd rfl some
  | @blank offset c r ts blank _ ih =>
      obtain ⟨m, gap, rfl, blanks, inner, last⟩ := ih some
      have filled : m ≠ [] := fun empty => some (inner.eq_nil empty)
      refine ⟨c :: m, gap, rfl, blanks, .blank blank inner, ?_⟩
      rwa [← List.singleton_append, List.getLast?_append_of_ne_nil _ filled]
  | @string offset q body r ts quote enclosed rest ih =>
      have size : (q :: (body ++ [q])).length = body.length + 2 := by simp
      have joined : ∀ x, q :: (body ++ q :: x) = (q :: (body ++ [q])) ++ x := by simp
      rw [joined]
      refine spanned_step ?_ ?_ ?_ ?_
      · intro c member
        rw [← List.cons_append, List.getLast?_concat] at member
        obtain rfl := Option.some.inj member
        exact isBlank_of_isQuote quote
      · rwa [size, ← Nat.add_assoc]
      · intro l x us _ left
        rw [size, ← Nat.add_assoc] at left
        exact joined l ▸ .string quote enclosed left
      · rw [size, ← Nat.add_assoc]
        exact ih
  | @opening offset r ts rest ih =>
      exact spanned_step (a := ['(']) (by rintro c ⟨⟩; decide) rest
        (fun _ _ _ _ left => .opening left) ih
  | @closing offset r ts rest ih =>
      exact spanned_step (a := [')']) (by rintro c ⟨⟩; decide) rest
        (fun _ _ _ _ left => .closing left) ih
  | @word offset w r ts bare ends rest ih =>
      refine spanned_step ?_ rest ?_ ih
      · intro c member
        exact (isWordChar_iff.mp (bare.plain c (List.mem_of_getLast? member))).1
      · rintro l x us rfl left
        refine .word bare ?_ left
        intro c member
        cases l with
        | nil => exact absurd member (by simp)
        | cons d l => exact ends c member

end Token.Scans

open TokenReader

/-! ## Conditions that are cut out -/

theorem endsCondition_append {terminators : List String} {t : Token} {behind rest : List Token}
    (goes : endsCondition terminators t (behind ++ rest) = false) :
    endsCondition terminators t behind = false := by
  cases behind with
  | cons u us => exact goes
  | nil =>
      rw [← Bool.not_eq_true] at goes ⊢
      intro ends
      apply goes
      simp only [endsCondition, List.head?_nil, Option.map_none, Bool.and_eq_true,
        Bool.or_eq_true] at ends ⊢
      exact ⟨ends.1, ends.2.imp_right fun string => absurd string (by decide)⟩

/-- The tokens that are cut off as a condition hold nothing outside parentheses that ends it; it goes on
to the end of the line, or stops outside parentheses. -/
theorem cutCondition_spec {terminators : List String} {depth : Nat} {ts own rest : List Token}
    (cut : cutCondition terminators depth ts = (own, rest)) :
    ts = own ++ rest ∧
      (∀ before t behind, own = before ++ t :: behind → Token.levelAfter depth before = 0 →
        endsCondition terminators t (behind ++ rest) = false) ∧
      (rest ≠ [] → Token.levelAfter depth own = 0) := by
  induction ts generalizing depth own rest with
  | nil =>
      obtain ⟨rfl, rfl⟩ := Prod.mk.inj cut
      exact ⟨rfl, by simp, by simp⟩
  | cons t ts ih =>
      have taken (d : Nat) (level : Token.levelAfter depth [t] = d)
          (goes : depth = 0 → endsCondition terminators t ts = false)
          (cut : (t :: (cutCondition terminators d ts).1, (cutCondition terminators d ts).2) =
            (own, rest)) : t :: ts = own ++ rest ∧
          (∀ before u behind, own = before ++ u :: behind → Token.levelAfter depth before = 0 →
            endsCondition terminators u (behind ++ rest) = false) ∧
          (rest ≠ [] → Token.levelAfter depth own = 0) := by
        obtain ⟨rfl, rfl⟩ := Prod.mk.inj cut
        have later : cutCondition terminators d ts =
            ((cutCondition terminators d ts).1, (cutCondition terminators d ts).2) := rfl
        obtain ⟨whole, free, stops⟩ := ih later
        have first (us : List Token) :
            Token.levelAfter depth (t :: us) = Token.levelAfter d us := by
          rw [← List.singleton_append, Token.levelAfter_append, level]
        refine ⟨by rw [List.cons_append, ← whole], ?_, ?_⟩
        · intro before u behind same zero
          cases before with
          | nil =>
              obtain ⟨rfl, rfl⟩ := List.cons.inj same
              rw [← whole]
              exact goes zero
          | cons v before =>
              obtain ⟨rfl, later⟩ := List.cons.inj same
              rw [first] at zero
              exact free before u behind later zero
        · intro some
          rw [first]
          exact stops some
      -- only a word can end the condition, and only outside parentheses
      cases kind : t.kind with
      | opening =>
          refine taken (depth + 1) (by simp [Token.levelAfter, kind]) (fun _ => ?_) ?_
          · simp [endsCondition, Token.isKeyword, kind]
          · simpa [cutCondition, kind] using cut
      | closing =>
          refine taken (depth - 1) (by simp [Token.levelAfter, kind]) (fun _ => ?_) ?_
          · simp [endsCondition, Token.isKeyword, kind]
          · simpa [cutCondition, kind] using cut
      | string =>
          have plain : endsCondition terminators t ts = false := by
            simp [endsCondition, isKeyword_of_string kind]
          refine taken depth (by simp [Token.levelAfter, kind]) (fun _ => plain) ?_
          simpa [cutCondition, kind, plain] using cut
      | word =>
          by_cases ends : depth = 0 ∧ endsCondition terminators t ts = true
          · have stop : (([], t :: ts) : List Token × List Token) = (own, rest) := by
              simpa [cutCondition, kind, ends.1, ends.2] using cut
            obtain ⟨rfl, rfl⟩ := Prod.mk.inj stop
            exact ⟨rfl, by simp, fun _ => ends.1⟩
          · refine taken depth (by simp [Token.levelAfter, kind]) (fun zero => ?_) ?_
            · exact Bool.not_eq_true _ ▸ fun stops => ends ⟨zero, stops⟩
            · simpa [cutCondition, kind, ends] using cut

/-- Whether tokens are the last ones of a line. -/
def Ends (line : List Char) (ts : List Token) : Prop := ∃ before, Token.Scans 0 line (before ++ ts)

variable {line : List Char} {ts rest : List Token}

theorem Ends.drop (taken : List Token) (ends : Ends line (taken ++ rest)) : Ends line rest := by
  obtain ⟨before, scans⟩ := ends
  exact ⟨before ++ taken, by rwa [List.append_assoc]⟩

theorem Ends.tail {t : Token} (ends : Ends line (t :: rest)) : Ends line rest :=
  ends.drop [t]

theorem Ends.slice {first last : Token} {own : List Token} (ends : Ends line (own ++ rest))
    (head : own.head? = some first) (back : own.getLast? = some last) :
    Text.trim (slice line first.start last.stop) = slice line first.start last.stop ∧
      ∃ us, Token.Scans 0 (slice line first.start last.stop) us ∧
        us.map (Token.shift first.start) = own := by
  obtain ⟨before, scans⟩ := ends
  obtain ⟨more, rfl⟩ := List.head?_eq_some_iff.mp head
  obtain ⟨l, r, rfl, start, _, right⟩ := scans.split
  rw [Nat.zero_add] at start
  have within : ∃ s x, r = s ++ x ∧ Token.Scans (0 + l.length) s (first :: more) := by
    cases rest with
    | nil => exact ⟨r, [], by simp, by simpa using right⟩
    | cons t rest =>
        have both : Token.Scans (0 + l.length) r ((first :: more) ++ t :: rest) := right
        obtain ⟨s, x, rfl, _, left, _⟩ := both.split
        exact ⟨s, x, rfl, left⟩
  obtain ⟨s, x, rfl, own⟩ := within
  obtain ⟨m, gap, rfl, _, spans, solid⟩ := own.spanned (by simp)
  have filled : m ≠ [] := fun empty => by cases spans.eq_nil empty
  obtain ⟨t, found, stop⟩ := spans.last_stop filled solid
  obtain rfl : t = last := Option.some.inj (found.symm.trans back)
  have text : slice (l ++ (m ++ gap ++ x)) first.start t.stop = m := by
    rw [start, stop, Nat.zero_add, List.append_assoc, slice_append]
  rw [text, start]
  refine ⟨Text.trim_eq_self_iff.mpr ⟨spans.head_solid (by rw [start, Nat.zero_add]), solid⟩, ?_⟩
  exact spans.unshift

/-- A condition is cut out from the start of its first token to the stop of its last one. -/
theorem cut_of_conditionText {terminators : List String} {text : String}
    (ran : (conditionText line terminators).run ts = .ok (text, rest)) :
    ∃ own first last, cutCondition terminators 0 ts = (own, rest) ∧ own.head? = some first ∧
      own.getLast? = some last ∧
      text = String.ofList (Text.trim (slice line first.start last.stop)) := by
  obtain ⟨own, more, cut⟩ : ∃ own more, cutCondition terminators 0 ts = (own, more) := ⟨_, _, rfl⟩
  cases head : own.head? with
  | none =>
      simp [conditionText, cut, head] at ran
      cases ran
  | some first =>
      cases back : own.getLast? with
      | none =>
          simp [conditionText, cut, head, back] at ran
          cases ran
      | some last =>
          simp [conditionText, cut, head, back] at ran
          obtain ⟨rfl, rfl⟩ := Prod.mk.inj (Except.ok.inj ran)
          exact ⟨own, first, last, cut, head, back, rfl⟩

/-- A condition that is cut out of a line is one, and what is left begins with a token that ends it. -/
theorem of_conditionText {terminators : List String} {text : String} (ends : Ends line ts)
    (ran : (conditionText line terminators).run ts = .ok (text, rest)) :
    Ends line rest ∧ ConditionText terminators (rest ≠ []) text := by
  obtain ⟨own, first, last, cut, head, back, rfl⟩ := cut_of_conditionText ran
  obtain ⟨rfl, free, stops⟩ := cutCondition_spec cut
  obtain ⟨trimmed, us, scans, placed⟩ := ends.slice head back
  rw [trimmed]
  refine ⟨ends.drop own, ?_, us, ?_, ?_, ?_, ?_⟩
  · rwa [String.toList_ofList]
  · rw [String.toList_ofList]
    exact Token.tokenize_eq_ok_iff.mpr scans
  · rintro rfl
    rw [← placed] at head
    cases head
  · intro before t behind same zero
    subst same
    have goes := free (before.map (Token.shift first.start)) (t.shift first.start)
      (behind.map (Token.shift first.start)) (by rw [← placed]; simp)
      (by rwa [Token.levelAfter_shift])
    have alone := endsCondition_append goes
    have alike : endsCondition terminators (t.shift first.start)
        (behind.map (Token.shift first.start) ++ []) = endsCondition terminators t behind :=
      endsCondition_shift terminators first.start t behind (by simp)
    rwa [List.append_nil, alone, eq_comm] at alike
  · intro some
    rw [← Token.levelAfter_shift first.start, placed]
    exact stops some

end FileQuery
