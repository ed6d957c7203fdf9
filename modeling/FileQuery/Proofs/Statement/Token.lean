import FileQuery.Proofs.Text.Blank
import FileQuery.Proofs.Text.Case

/-! # How a line falls into tokens

`Scans` says what the tokens of a text are, one rule for each kind of token; a text has the tokens
that are read from it exactly by these rules (`scan_eq_ok_iff`). Texts with a blank between them have
the tokens of the one and then those of the other (`Scans.append`), and tokens keep their shape
wherever a text stands (`Scans.shift`). -/
set_option autoImplicit false
namespace FileQuery.Token

/-- Whether a text can stand between quotes of a kind: each such quote in it has a backslash of its
own before it, and no backslash is left over at the end. -/
inductive Enclosed (quote : Char) : List Char → Prop where
  | nil : Enclosed quote []
  | plain {c : Char} {r : List Char} (other : c ≠ quote) (bare : c ≠ '\\') (rest : Enclosed quote r) :
      Enclosed quote (c :: r)
  | escaped {d : Char} {r : List Char} (rest : Enclosed quote r) : Enclosed quote ('\\' :: d :: r)

theorem quote_ne_backslash {q : Char} (quote : isQuote q = true) : '\\' ≠ q := by
  rintro rfl
  exact absurd quote (by decide)

theorem closeString_of_enclosed {q : Char} (quote : isQuote q = true) {body : List Char}
    (enclosed : Enclosed q body) (rest : List Char) :
    closeString q (body ++ q :: rest) = some (body, rest) := by
  induction enclosed with
  | nil =>
      rw [closeString.eq_def]
      simp
  | plain other bare _ ih =>
      rw [List.cons_append, closeString.eq_def]
      simp only [if_neg other, if_neg bare]
      rw [ih]
      rfl
  | escaped _ ih =>
      rw [List.cons_append, List.cons_append, closeString.eq_def]
      simp only [if_neg (quote_ne_backslash quote), if_true]
      rw [ih]
      rfl

theorem enclosed_of_closeString {q : Char} {s body rest : List Char}
    (closed : closeString q s = some (body, rest)) :
    s = body ++ q :: rest ∧ Enclosed q body := by
  fun_induction closeString q s generalizing body rest with
  | case1 => simp at closed
  | case2 r =>
      simp only [Option.some.injEq, Prod.mk.injEq] at closed
      obtain ⟨rfl, rfl⟩ := closed
      exact ⟨rfl, .nil⟩
  | case3 => simp at closed
  | case4 d r _ ih =>
      obtain ⟨⟨body', rest'⟩, found, same⟩ := Option.map_eq_some_iff.mp closed
      simp only [Prod.mk.injEq] at same
      obtain ⟨rfl, rfl⟩ := same
      obtain ⟨shape, enclosed⟩ := ih found
      exact ⟨by rw [shape]; rfl, .escaped enclosed⟩
  | case5 c r other bare ih =>
      obtain ⟨⟨body', rest'⟩, found, same⟩ := Option.map_eq_some_iff.mp closed
      simp only [Prod.mk.injEq] at same
      obtain ⟨rfl, rfl⟩ := same
      obtain ⟨shape, enclosed⟩ := ih found
      exact ⟨by rw [shape]; rfl, .plain other bare enclosed⟩

/-! ## The tokens of a text -/

def parenthesis (kind : TokenKind) (value : String) (start : Nat) : Token :=
  ⟨kind, value, start, start + 1⟩

/-- The tokens of a text that begins at an offset. -/
inductive Scans : Nat → List Char → List Token → Prop where
  | nil (offset : Nat) : Scans offset [] []
  | blank {offset : Nat} {c : Char} {r : List Char} {ts : List Token}
      (blank : Text.isBlank c = true) (rest : Scans (offset + 1) r ts) : Scans offset (c :: r) ts
  | string {offset : Nat} {q : Char} {body r : List Char} {ts : List Token}
      (quote : isQuote q = true) (enclosed : Enclosed q body)
      (rest : Scans (offset + body.length + 2) r ts) :
      Scans offset (q :: (body ++ q :: r)) (ofString body offset :: ts)
  | opening {offset : Nat} {r : List Char} {ts : List Token} (rest : Scans (offset + 1) r ts) :
      Scans offset ('(' :: r) (parenthesis .opening "(" offset :: ts)
  | closing {offset : Nat} {r : List Char} {ts : List Token} (rest : Scans (offset + 1) r ts) :
      Scans offset (')' :: r) (parenthesis .closing ")" offset :: ts)
  | word {offset : Nat} {w r : List Char} {ts : List Token} (bare : Bare w)
      (ends : ∀ c ∈ r.head?, isWordChar c = false) (rest : Scans (offset + w.length) r ts) :
      Scans offset (w ++ r) (ofWord w offset :: ts)

theorem Bare.trimmed {w : List Char} (bare : Bare w) : Text.trim w = w := by
  rw [Text.trim_eq_self_iff]
  constructor
  · intro c member
    exact (isWordChar_iff.mp (bare.plain c (List.mem_of_mem_head? member))).1
  · intro c member
    exact (isWordChar_iff.mp (bare.plain c (List.mem_of_getLast? member))).1

theorem trimmed_string {q : Char} (quote : isQuote q = true) (body : List Char) :
    Text.trim (q :: (body ++ [q])) = q :: (body ++ [q]) := by
  have single := Text.trim_singleton (isBlank_of_isQuote quote)
  exact Text.trim_between single single (by simp) (by simp) body

theorem map_cons_eq_ok {ε : Type} {x : Except ε (List Token)} {t : Token} {ts : List Token}
    (done : (do let us ← x; return t :: us) = Except.ok ts) : ∃ us, x = .ok us ∧ ts = t :: us := by
  cases x with
  | error e => exact absurd done (by simp [bind, Except.bind])
  | ok us => exact ⟨us, rfl, (Except.ok.inj done).symm⟩

theorem scans_of_scan {offset : Nat} {s : List Char} {ts : List Token}
    (read : scan offset s = .ok ts) : Scans offset s ts := by
  fun_induction scan offset s generalizing ts with
  | case1 =>
      cases read
      exact .nil _
  | case2 offset c r blank ih => exact .blank blank (ih read)
  | case3 => simp at read
  | case4 offset c r _ quote body rest found ih =>
      obtain ⟨us, rest', rfl⟩ := map_cons_eq_ok read
      obtain ⟨rfl, enclosed⟩ := enclosed_of_closeString found
      exact .string quote enclosed (ih rest')
  | case5 offset r _ _ ih =>
      obtain ⟨us, rest', rfl⟩ := map_cons_eq_ok read
      exact .opening (ih rest')
  | case6 offset r _ _ _ ih =>
      obtain ⟨us, rest', rfl⟩ := map_cons_eq_ok read
      exact .closing (ih rest')
  | case7 offset c r blank quote opening closing =>
      rename_i ih
      obtain ⟨us, rest', rfl⟩ := map_cons_eq_ok read
      have first : isWordChar c = true := by
        rw [isWordChar_iff]
        exact ⟨by simpa using blank, by simpa using quote, opening, closing⟩
      -- a bare word is as long as it can be, so what comes next does not go on with it
      have whole : c :: r = (c :: r.takeWhile isWordChar) ++ r.dropWhile isWordChar := by
        rw [List.cons_append, List.takeWhile_append_dropWhile]
      have word : Scans offset ((c :: r.takeWhile isWordChar) ++ r.dropWhile isWordChar)
          (ofWord (c :: r.takeWhile isWordChar) offset :: us) := by
        refine .word ⟨by simp, ?_⟩ ?_ (ih rest')
        · intro d member
          rcases List.mem_cons.mp member with rfl | h
          · exact first
          · exact List.mem_takeWhile_imp h
        · intro d member
          have h := List.head?_dropWhile_not isWordChar r
          rw [Option.mem_def.mp member] at h
          simpa using h
      rwa [← whole] at word

theorem span_bare {w r : List Char} (plain : ∀ c ∈ w, isWordChar c = true)
    (ends : ∀ c ∈ r.head?, isWordChar c = false) :
    (w ++ r).takeWhile isWordChar = w ∧ (w ++ r).dropWhile isWordChar = r := by
  have stop : r.takeWhile isWordChar = [] ∧ r.dropWhile isWordChar = r := by
    cases r with
    | nil => simp
    | cons d r => simp [ends d rfl]
  rw [List.takeWhile_append_of_pos plain, List.dropWhile_append_of_pos plain, stop.1, stop.2,
    List.append_nil]
  exact ⟨rfl, rfl⟩

theorem scan_of_scans {offset : Nat} {s : List Char} {ts : List Token}
    (scans : Scans offset s ts) : scan offset s = .ok ts := by
  induction scans with
  | nil offset => rw [scan]
  | blank blank _ ih => rw [scan, if_pos blank, ih]
  | @string offset q body r ts quote enclosed _ ih =>
      have closed := closeString_of_enclosed quote enclosed r
      rw [scan, if_neg (by simp [isBlank_of_isQuote quote]), if_pos quote]
      split
      · next none => rw [none] at closed; exact absurd closed (by simp)
      · next found =>
          rw [closed] at found
          simp only [Option.some.injEq, Prod.mk.injEq] at found
          obtain ⟨rfl, rfl⟩ := found
          rw [ih]
          rfl
  | opening _ ih =>
      rw [scan, if_neg (by decide), if_neg (by decide), if_pos rfl, ih]
      rfl
  | closing _ ih =>
      rw [scan, if_neg (by decide), if_neg (by decide), if_neg (by decide), if_pos rfl, ih]
      rfl
  | @word offset w r ts bare ends _ ih =>
      cases w with
      | nil => exact absurd rfl bare.nonempty
      | cons c w =>
          have first := isWordChar_iff.mp (bare.plain c (by simp))
          have rest : ∀ d ∈ w, isWordChar d = true :=
            fun d member => bare.plain d (List.mem_cons_of_mem _ member)
          have taken := span_bare rest ends
          rw [List.cons_append, scan, if_neg (by simp [first.1]), if_neg (by simp [first.2.1]),
            if_neg first.2.2.1, if_neg first.2.2.2]
          simp only [taken.1, taken.2]
          rw [ih]
          rfl

theorem scan_eq_ok_iff {offset : Nat} {s : List Char} {ts : List Token} :
    scan offset s = .ok ts ↔ Scans offset s ts :=
  ⟨scans_of_scan, scan_of_scans⟩

theorem tokenize_eq_ok_iff {s : List Char} {ts : List Token} :
    tokenize s = .ok ts ↔ Scans 0 s ts :=
  scan_eq_ok_iff

/-- The same token in a text that stands further to the right. -/
def shift (n : Nat) (t : Token) : Token := ⟨t.kind, t.value, t.start + n, t.stop + n⟩

/-- The depth of parentheses after tokens; one that closes nothing changes no depth. -/
def levelAfter (depth : Nat) : List Token → Nat
  | [] => depth
  | t :: ts =>
    match t.kind with
    | .opening => levelAfter (depth + 1) ts
    | .closing => levelAfter (depth - 1) ts
    | _ => levelAfter depth ts

theorem levelAfter_append (depth : Nat) (ts us : List Token) :
    levelAfter depth (ts ++ us) = levelAfter (levelAfter depth ts) us := by
  induction ts generalizing depth with
  | nil => rfl
  | cons t ts ih =>
      rw [List.cons_append, levelAfter, levelAfter]
      split
      all_goals exact ih _

theorem levelAfter_shift (n depth : Nat) (ts : List Token) :
    levelAfter depth (ts.map (Token.shift n)) = levelAfter depth ts := by
  induction ts generalizing depth with
  | nil => rfl
  | cons t ts ih =>
      have same : (Token.shift n t).kind = t.kind := rfl
      rw [List.map_cons, levelAfter, levelAfter, same]
      split
      all_goals exact ih _

namespace Scans

theorem start_le_of_cons {offset further : Nat} {t : Token} {ts : List Token}
    (first : t.start = offset) (le : offset ≤ further) (rest : ∀ u ∈ ts, further ≤ u.start) :
    ∀ u ∈ t :: ts, offset ≤ u.start := by
  intro u member
  rcases List.mem_cons.mp member with rfl | h
  · exact Nat.le_of_eq first.symm
  · exact Nat.le_trans le (rest u h)

theorem offset_le_start {offset : Nat} {s : List Char} {ts : List Token}
    (scans : Scans offset s ts) : ∀ t ∈ ts, offset ≤ t.start := by
  induction scans with
  | nil => simp
  | blank _ _ ih =>
      intro t member
      exact Nat.le_of_succ_le (ih t member)
  | string _ _ _ ih => exact start_le_of_cons rfl (by omega) ih
  | opening _ ih => exact start_le_of_cons rfl (by omega) ih
  | closing _ ih => exact start_le_of_cons rfl (by omega) ih
  | word _ _ _ ih => exact start_le_of_cons rfl (by omega) ih

theorem shift {offset : Nat} {s : List Char} {ts : List Token} (scans : Scans offset s ts)
    (n : Nat) : Scans (offset + n) s (ts.map (Token.shift n)) := by
  induction scans with
  | nil offset => exact .nil _
  | blank blank _ ih => exact .blank blank (by rwa [Nat.add_right_comm] at ih)
  | @string offset q body r ts quote enclosed _ ih =>
      have same : Token.shift n (ofString body offset) = ofString body (offset + n) := by
        simp only [Token.shift, ofString, Token.mk.injEq, true_and]
        omega
      rw [List.map_cons, same]
      apply Scans.string quote enclosed
      rwa [show offset + n + body.length + 2 = offset + body.length + 2 + n by omega]
  | @opening offset r ts _ ih =>
      have same : Token.shift n (parenthesis .opening "(" offset) =
          parenthesis .opening "(" (offset + n) := by
        simp only [Token.shift, parenthesis, Token.mk.injEq, true_and]
        omega
      rw [List.map_cons, same]
      exact .opening (by rwa [Nat.add_right_comm] at ih)
  | @closing offset r ts _ ih =>
      have same : Token.shift n (parenthesis .closing ")" offset) =
          parenthesis .closing ")" (offset + n) := by
        simp only [Token.shift, parenthesis, Token.mk.injEq, true_and]
        omega
      rw [List.map_cons, same]
      exact .closing (by rwa [Nat.add_right_comm] at ih)
  | @word offset w r ts bare ends _ ih =>
      have same : Token.shift n (ofWord w offset) = ofWord w (offset + n) := by
        simp only [Token.shift, ofWord, Token.mk.injEq, true_and]
        omega
      rw [List.map_cons, same]
      exact .word bare ends (by rwa [Nat.add_right_comm] at ih)

theorem blanks {offset : Nat} {gap s : List Char} {ts : List Token} (blank : Text.Blanks gap)
    (scans : Scans (offset + gap.length) s ts) : Scans offset (gap ++ s) ts := by
  induction gap generalizing offset with
  | nil => exact scans
  | cons c r ih =>
      have both := Text.blanks_cons.mp blank
      refine .blank both.1 (ih both.2 ?_)
      rwa [List.length_cons, ← Nat.add_assoc, Nat.add_right_comm] at scans

theorem word_blank {offset : Nat} {w r : List Char} {c : Char} {ts : List Token} (bare : Bare w)
    (blank : Text.isBlank c = true) (rest : Scans (offset + w.length + 1) r ts) :
    Scans offset (w ++ c :: r) (ofWord w offset :: ts) := by
  refine .word bare ?_ (.blank blank rest)
  intro d member
  obtain rfl : c = d := by simpa using member
  exact isWordChar_of_isBlank blank

theorem append {offset : Nat} {a gap r : List Char} {ts us : List Token} (left : Scans offset a ts)
    (parts : Text.Gap gap) (right : Scans (offset + a.length + gap.length) r us) :
    Scans offset (a ++ (gap ++ r)) (ts ++ us) := by
  induction left with
  | nil offset =>
      rw [List.nil_append]
      exact blanks parts.blanks right
  | blank here _ ih =>
      refine .blank here (ih ?_)
      rwa [List.length_cons, Nat.add_comm _ 1, ← Nat.add_assoc] at right
  | @string offset q body s ts quote enclosed _ ih =>
      have whole : q :: (body ++ q :: s) ++ (gap ++ r) =
          q :: (body ++ q :: (s ++ (gap ++ r))) := by simp
      rw [whole]
      refine .string quote enclosed (ih ?_)
      simp only [List.length_cons, List.length_append] at right
      rwa [show offset + body.length + 2 + s.length + gap.length =
        offset + (body.length + (s.length + 1) + 1) + gap.length by omega]
  | opening _ ih =>
      refine .opening (ih ?_)
      rwa [List.length_cons, Nat.add_comm _ 1, ← Nat.add_assoc] at right
  | closing _ ih =>
      refine .closing (ih ?_)
      rwa [List.length_cons, Nat.add_comm _ 1, ← Nat.add_assoc] at right
  | @word offset w s ts bare ends _ ih =>
      rw [List.append_assoc]
      refine .word bare ?_ (ih ?_)
      · intro c member
        cases s with
        | cons d s => exact ends c member
        | nil =>
            cases gap with
            | nil => exact absurd rfl parts.nonempty
            | cons d gap =>
                have same : d = c := by simpa using member
                exact isWordChar_of_isBlank (same ▸ (Text.blanks_cons.mp parts.blanks).1)
      · rwa [List.length_append, ← Nat.add_assoc] at right

theorem eq_nil {offset : Nat} {s : List Char} {ts : List Token} (scans : Scans offset s ts)
    (empty : s = []) : ts = [] := by
  cases scans with
  | nil => rfl
  | blank | string | opening | closing => exact absurd empty (by simp)
  | word bare _ _ => exact absurd (List.append_eq_nil_iff.mp empty).1 bare.nonempty

/-- The tokens of a text without a blank in front begin where the text begins. -/
theorem head_start {offset : Nat} {s : List Char} {ts : List Token} (scans : Scans offset s ts)
    (nonempty : s ≠ []) (first : ∀ c ∈ s.head?, Text.isBlank c = false) :
    ∃ t, ts.head? = some t ∧ t.start = offset := by
  cases scans with
  | nil => exact absurd rfl nonempty
  | blank blank _ => exact absurd (first _ rfl) (by simp [blank])
  | string | opening | closing | word => exact ⟨_, rfl, rfl⟩

theorem last_step {offset : Nat} {r : List Char} {t : Token} {ts : List Token}
    (rest : Scans offset r ts) (stop : t.stop = offset)
    (ih : r ≠ [] → ∃ u, ts.getLast? = some u ∧ u.stop = offset + r.length) :
    ∃ u, (t :: ts).getLast? = some u ∧ u.stop = offset + r.length := by
  by_cases empty : r = []
  · rw [rest.eq_nil empty, empty]
    exact ⟨t, rfl, stop⟩
  · obtain ⟨u, found, ends⟩ := ih empty
    refine ⟨u, ?_, ends⟩
    rw [List.getLast?_cons, found]
    rfl

theorem last_stop {offset : Nat} {s : List Char} {ts : List Token} (scans : Scans offset s ts)
    (nonempty : s ≠ []) (last : ∀ c ∈ s.getLast?, Text.isBlank c = false) :
    ∃ t, ts.getLast? = some t ∧ t.stop = offset + s.length := by
  induction scans with
  | nil => exact absurd rfl nonempty
  | @blank offset c r ts blank rest ih =>
      by_cases empty : r = []
      · rw [empty] at last
        exact absurd (last c rfl) (by simp [blank])
      · obtain ⟨t, found, stop⟩ := ih empty fun d member => last d (Text.mem_getLast_append member [c])
        refine ⟨t, found, ?_⟩
        rw [stop, List.length_cons]
        omega
  | @string offset q body r ts quote enclosed rest ih =>
      obtain ⟨t, found, stop⟩ := last_step (t := ofString body offset) rest rfl fun some => ih some
        fun d member => last d (by simpa using Text.mem_getLast_append member (q :: (body ++ [q])))
      refine ⟨t, found, ?_⟩
      simp only [stop, List.length_cons, List.length_append]
      omega
  | @opening offset r ts rest ih =>
      obtain ⟨t, found, stop⟩ := last_step (t := parenthesis .opening "(" offset) rest rfl
        fun some => ih some fun d member => last d (Text.mem_getLast_append member ['('])
      refine ⟨t, found, ?_⟩
      rw [stop, List.length_cons]
      omega
  | @closing offset r ts rest ih =>
      obtain ⟨t, found, stop⟩ := last_step (t := parenthesis .closing ")" offset) rest rfl
        fun some => ih some fun d member => last d (Text.mem_getLast_append member [')'])
      refine ⟨t, found, ?_⟩
      rw [stop, List.length_cons]
      omega
  | @word offset w r ts bare ends rest ih =>
      obtain ⟨t, found, stop⟩ := last_step (t := ofWord w offset) rest rfl
        fun some => ih some fun d member => last d (Text.mem_getLast_append member w)
      refine ⟨t, found, ?_⟩
      rw [stop, List.length_append, Nat.add_assoc]

theorem split_step {offset : Nat} {a r : List Char} {first t : Token}
    {ts before behind : List Token} (whole : Scans offset (a ++ r) (first :: ts))
    (start : first.start = offset)
    (extend : ∀ l x us, r = l ++ x → Scans (offset + a.length) l us →
      Scans offset (a ++ l) (first :: us))
    (ih : ∀ {before : List Token}, before ++ t :: behind = ts → ∃ l x, r = l ++ x ∧
      t.start = offset + a.length + l.length ∧ Scans (offset + a.length) l before ∧
      Scans (offset + a.length + l.length) x (t :: behind))
    (all : before ++ t :: behind = first :: ts) :
    ∃ l x, a ++ r = l ++ x ∧ t.start = offset + l.length ∧ Scans offset l before ∧
      Scans (offset + l.length) x (t :: behind) := by
  cases before with
  | nil =>
      simp only [List.nil_append, List.cons.injEq] at all
      obtain ⟨rfl, rfl⟩ := all
      exact ⟨[], a ++ r, rfl, start, .nil offset, whole⟩
  | cons u before =>
      simp only [List.cons_append, List.cons.injEq] at all
      obtain ⟨rfl, all⟩ := all
      obtain ⟨l, x, rfl, starts, left, right⟩ := ih all
      refine ⟨a ++ l, x, by rw [List.append_assoc], ?_, extend l x before rfl left, ?_⟩
      · rw [starts, List.length_append, Nat.add_assoc]
      · rwa [List.length_append, ← Nat.add_assoc]

theorem split {offset : Nat} {s : List Char} {before behind : List Token} {t : Token}
    (scans : Scans offset s (before ++ t :: behind)) :
    ∃ l r, s = l ++ r ∧ t.start = offset + l.length ∧ Scans offset l before ∧
      Scans (offset + l.length) r (t :: behind) := by
  generalize all : before ++ t :: behind = ts at scans
  induction scans generalizing before with
  | nil => simp at all
  | @blank offset c r ts blank rest ih =>
      obtain ⟨l, x, rfl, starts, left, right⟩ := ih all
      refine ⟨c :: l, x, rfl, ?_, .blank blank left, ?_⟩
      · rw [starts, List.length_cons]
        omega
      · rwa [List.length_cons, Nat.add_comm l.length 1, ← Nat.add_assoc]
  | @string offset q body r ts quote enclosed rest ih =>
      have size : (q :: (body ++ [q])).length = body.length + 2 := by simp
      have joined : ∀ x, q :: (body ++ q :: x) = (q :: (body ++ [q])) ++ x := by simp
      rw [joined]
      refine split_step (joined r ▸ .string quote enclosed rest) rfl ?_ ?_ all
      · intro l x us _ left
        rw [size, ← Nat.add_assoc] at left
        exact joined l ▸ .string quote enclosed left
      · intro before same
        rw [size, ← Nat.add_assoc]
        exact ih same
  | @opening offset r ts rest ih =>
      exact split_step (a := ['(']) (.opening rest) rfl
        (fun _ _ _ _ left => .opening left) ih all
  | @closing offset r ts rest ih =>
      exact split_step (a := [')']) (.closing rest) rfl
        (fun _ _ _ _ left => .closing left) ih all
  | @word offset w r ts bare ends rest ih =>
      refine split_step (.word bare ends rest) rfl ?_ ih all
      rintro l x us rfl left
      refine .word bare ?_ left
      intro c member
      cases l with
      | nil => exact absurd member (by simp)
      | cons d l => exact ends c member

end Scans

end FileQuery.Token
