import FileQuery.Proofs.Statement.Takes

/-! # How tokens partition a line

A reading from left to right (`Reading`) says which characters stand in strings, without any tokens. A
line has no tokens exactly if such a reading ends in a string, which some quote opened and no later one
closes (`LeavesOpen`); otherwise its tokens are the one list of tokens that lies over the line in order,
with nothing but blanks between them (`Partition`). -/
set_option autoImplicit false
namespace FileQuery.Token

open TokenReader (slice slice_append)

/-! ## Strings that are left open -/

/-- Whether a character in a string skips the one after it: a backslash does that is not skipped. -/
def skips (skipped : Bool) (c : Char) : Bool := !skipped && c == '\\'

/-- Whether the character behind the beginning of a string is skipped. -/
def skipped (body : List Char) : Bool := body.foldl skips false

/-- Where a reading of a text stands: outside strings, or in one, where it may skip what comes next. -/
inductive Reading where
  | outside
  | inside (quote : Char) (skipped : Bool)

namespace Reading

def next : Reading → Char → Reading
  | outside, c => if isQuote c then inside c false else outside
  | inside q skipped, c => if c = q ∧ skipped = false then outside else inside q (skips skipped c)

def after (s : List Char) : Reading := s.foldl next outside

theorem closed {q : Char} {skipped : Bool} {s : List Char}
    (ends : s.foldl next (inside q skipped) = outside) :
    ∃ body rest, s = body ++ q :: rest ∧ body.foldl skips skipped = false := by
  induction s generalizing skipped with
  | nil => cases ends
  | cons c s ih =>
      by_cases closes : c = q ∧ skipped = false
      · obtain ⟨rfl, rfl⟩ := closes
        exact ⟨[], s, rfl, rfl⟩
      · rw [List.foldl_cons, next, if_neg closes] at ends
        obtain ⟨body, rest, rfl, free⟩ := ih ends
        exact ⟨c :: body, rest, rfl, free⟩

theorem of_enclosed {q : Char} (quote : isQuote q = true) {body : List Char}
    (enclosed : Enclosed q body) : body.foldl next (inside q false) = inside q false := by
  induction enclosed with
  | nil => rfl
  | plain other bare _ ih => simpa [next, other, skips, beq_false_of_ne bare] using ih
  | escaped _ ih => simpa [next, quote_ne_backslash quote, skips] using ih

theorem of_string {q : Char} (quote : isQuote q = true) {body : List Char} (enclosed : Enclosed q body) :
    after (q :: (body ++ [q])) = outside := by
  rw [after, List.foldl_cons, List.foldl_append, next, if_pos quote, of_enclosed quote enclosed]
  simp [next]

theorem of_plain {s : List Char} (plain : ∀ c ∈ s, isQuote c = false) : after s = outside := by
  unfold after
  induction s with
  | nil => rfl
  | cons c s ih =>
      obtain ⟨first, rest⟩ := List.forall_mem_cons.mp plain
      simpa [next, first] using ih rest

theorem of_blank {c : Char} (blank : Text.isBlank c = true) : after [c] = outside := by
  refine of_plain (List.forall_mem_singleton.mpr ?_)
  rw [← Bool.not_eq_true]
  intro quote
  simp [isBlank_of_isQuote quote] at blank

theorem of_bare {w : List Char} (bare : Bare w) : after w = outside :=
  of_plain fun c member => (isWordChar_iff.mp (bare.plain c member)).2.1

theorem append {a : List Char} (left : after a = outside) (s : List Char) :
    after (a ++ s) = after s := by
  rw [after, List.foldl_append, ← after, left, after]

theorem of_scans {offset : Nat} {s : List Char} {ts : List Token} (scans : Scans offset s ts) :
    after s = outside := by
  induction scans with
  | nil => rfl
  | blank blank _ ih => exact (append (of_blank blank) _).trans ih
  | @string _ q body r _ quote enclosed _ ih =>
      have whole : q :: (body ++ q :: r) = (q :: (body ++ [q])) ++ r := by simp
      rw [whole, append (of_string quote enclosed), ih]
  | opening _ ih | closing _ ih => exact ih
  | word bare _ _ ih => rw [append (of_bare bare), ih]

end Reading

/-- Whether a string is left open: a quote opens it outside strings, and each quote of its kind behind
that one is skipped. -/
structure LeavesOpen (before : List Char) (q : Char) (r : List Char) : Prop where
  outside : Reading.after before = .outside
  quote : isQuote q = true
  skipped : ∀ body rest, r = body ++ q :: rest → skipped body = true

theorem LeavesOpen.not_outside {before x y : List Char} {q : Char}
    (opened : LeavesOpen before q (x ++ y)) : Reading.after (before ++ q :: x) ≠ .outside := by
  intro ends
  rw [Reading.append opened.outside, Reading.after, List.foldl_cons, Reading.next,
    if_pos opened.quote] at ends
  obtain ⟨body, rest, rfl, free⟩ := Reading.closed ends
  have kept := opened.skipped body (rest ++ y) (by simp)
  exact Bool.false_ne_true (free.symm.trans kept)

theorem LeavesOpen.unique {b₁ b₂ r₁ r₂ : List Char} {q₁ q₂ : Char} (first : LeavesOpen b₁ q₁ r₁)
    (second : LeavesOpen b₂ q₂ r₂) (same : b₁ ++ q₁ :: r₁ = b₂ ++ q₂ :: r₂) : b₁ = b₂ := by
  have behind {b b' r r' x : List Char} {q q' : Char} (outer : LeavesOpen b q r)
      (inner : LeavesOpen b' q' r') (early : b' = b ++ x) (rest : q :: r = x ++ q' :: r') : x = [] := by
    cases x with
    | nil => rfl
    | cons c x =>
        obtain ⟨rfl, rfl⟩ := List.cons.inj rest
        exact absurd (early ▸ inner.outside) outer.not_outside
  rcases List.append_eq_append_iff.mp same with ⟨x, early, rest⟩ | ⟨x, early, rest⟩
  · rw [early, behind first second early rest, List.append_nil]
  · rw [early, behind second first early rest, List.append_nil]

theorem skipped_of_closeString {q : Char} {r : List Char} (left : closeString q r = none) :
    ∀ body rest, r = body ++ q :: rest → skipped body = true := by
  fun_induction closeString q r with
  | case1 => simp
  | case2 => cases left
  | case3 other =>
      intro body rest same
      cases body with
      | nil => exact absurd (List.cons.inj same).1 other
      | cons c body => simp at same
  | case4 d r other ih =>
      intro body rest same
      have inner := ih (Option.map_eq_none_iff.mp left)
      cases body with
      | nil => exact absurd (List.cons.inj same).1 other
      | cons c body =>
          obtain ⟨rfl, behind⟩ := List.cons.inj same
          cases body with
          | nil => rfl
          | cons c' body => exact inner body rest (List.cons.inj behind).2
  | case5 c r other bare ih =>
      intro body rest same
      cases body with
      | nil => exact absurd (List.cons.inj same).1 other
      | cons c' body =>
          obtain ⟨rfl, behind⟩ := List.cons.inj same
          have inner := ih (Option.map_eq_none_iff.mp left) body rest behind
          simpa [skipped, skips, beq_false_of_ne bare] using inner

theorem map_cons_eq_error {x : Except SyntaxError (List Token)} {t : Token} {e : SyntaxError}
    (failed : (do let us ← x; return t :: us) = Except.error e) : x = .error e := by
  cases x with
  | error e' => exact failed
  | ok us => cases failed

/-- A string that is left open behind whole tokens is left open in the whole text. -/
theorem leavesOpen_behind {offset : Nat} {a s : List Char} {e : SyntaxError}
    (outside : Reading.after a = .outside)
    (opened : ∃ before q r, s = before ++ q :: r ∧ LeavesOpen before q r ∧
      e = .unterminatedString (offset + a.length + before.length + 1)) :
    ∃ before q r, a ++ s = before ++ q :: r ∧ LeavesOpen before q r ∧
      e = .unterminatedString (offset + before.length + 1) := by
  obtain ⟨before, q, r, rfl, here, rfl⟩ := opened
  refine ⟨a ++ before, q, r, (List.append_assoc ..).symm, ⟨?_, here.quote, here.skipped⟩, ?_⟩
  · rw [Reading.append outside, here.outside]
  · rw [List.length_append, Nat.add_assoc offset]

theorem leavesOpen_of_scan {offset : Nat} {s : List Char} {e : SyntaxError}
    (failed : scan offset s = .error e) : ∃ before q r, s = before ++ q :: r ∧ LeavesOpen before q r ∧
      e = .unterminatedString (offset + before.length + 1) := by
  fun_induction scan offset s with
  | case1 => cases failed
  | case2 offset c r blank ih => exact leavesOpen_behind (Reading.of_blank blank) (ih failed)
  | case3 offset c r _ quote left =>
      cases failed
      exact ⟨[], c, r, rfl, ⟨rfl, quote, skipped_of_closeString left⟩, rfl⟩
  | case4 offset c r _ quote body rest found ih =>
      obtain ⟨rfl, enclosed⟩ := enclosed_of_closeString found
      have whole : c :: (body ++ c :: rest) = (c :: (body ++ [c])) ++ rest := by simp
      have size : (c :: (body ++ [c])).length = body.length + 2 := by simp
      rw [whole]
      refine leavesOpen_behind (Reading.of_string quote enclosed) ?_
      rw [size, ← Nat.add_assoc]
      exact ih (map_cons_eq_error failed)
  | case5 offset r _ _ ih => exact leavesOpen_behind (a := ['(']) rfl (ih (map_cons_eq_error failed))
  | case6 offset r _ _ _ ih => exact leavesOpen_behind (a := [')']) rfl (ih (map_cons_eq_error failed))
  | case7 offset c r blank quote opening closing =>
      rename_i ih
      have plain : ∀ d ∈ c :: r.takeWhile isWordChar, isQuote d = false := by
        refine List.forall_mem_cons.mpr ⟨by simpa using quote, fun d member => ?_⟩
        exact (isWordChar_iff.mp (List.mem_takeWhile_imp member)).2.1
      have whole : c :: r = (c :: r.takeWhile isWordChar) ++ r.dropWhile isWordChar := by
        rw [List.cons_append, List.takeWhile_append_dropWhile]
      rw [whole]
      exact leavesOpen_behind (Reading.of_plain plain) (ih (map_cons_eq_error failed))

/-- A text has no tokens exactly if it leaves a string open, and the error names where its quote stands. -/
theorem tokenize_eq_error_iff {s : List Char} {e : SyntaxError} :
    tokenize s = .error e ↔ ∃ before q r, s = before ++ q :: r ∧ LeavesOpen before q r ∧
      e = .unterminatedString (before.length + 1) := by
  have found {e : SyntaxError} (failed : tokenize s = .error e) : ∃ before q r,
      s = before ++ q :: r ∧ LeavesOpen before q r ∧ e = .unterminatedString (before.length + 1) := by
    obtain ⟨before, q, r, same, opened, rfl⟩ := leavesOpen_of_scan failed
    exact ⟨before, q, r, same, opened, by rw [Nat.zero_add]⟩
  refine ⟨found, ?_⟩
  rintro ⟨before, q, r, rfl, opened, rfl⟩
  cases read : tokenize (before ++ q :: r) with
  | ok ts =>
      rw [← List.append_nil r] at opened
      exact absurd (Reading.of_scans (tokenize_eq_ok_iff.mp read)) opened.not_outside
  | error e =>
      obtain ⟨before', q', r', same, other, rfl⟩ := found read
      rw [opened.unique other same]

/-! ## Tokens over a line -/

/-- Whether a text is what a value of a kind is written as: a string stands between two quotes that are
the same, a word and a parenthesis as they are. -/
inductive Written : TokenKind → String → List Char → Prop where
  | word {value : String} (bare : Bare value.toList) : Written .word value value.toList
  | string {value : String} {q : Char} (quote : isQuote q = true) (enclosed : Enclosed q value.toList) :
      Written .string value (q :: (value.toList ++ [q]))
  | opening : Written .opening "(" ['(']
  | closing : Written .closing ")" [')']

/-- Whether tokens lie over a text, from a place in it on: one behind the other, each over what it stands
for, with blanks between them, and no word beside a word. -/
structure Partition (place : Nat) (s : List Char) (ts : List Token) : Prop where
  inside : ∀ t ∈ ts, place ≤ t.start ∧ t.start < t.stop ∧ t.stop ≤ s.length
  ordered : ts.Pairwise fun t u => t.stop ≤ u.start
  written : ∀ t ∈ ts, Written t.kind t.value (slice s t.start t.stop)
  between : ∀ i, place ≤ i → (∀ t ∈ ts, ¬ (t.start ≤ i ∧ i < t.stop)) →
    ∀ c ∈ s[i]?, Text.isBlank c = true
  apart : ∀ t ∈ ts, ∀ u ∈ ts, t.kind = .word → u.kind = .word → t.stop ≠ u.start

theorem head?_slice {s : List Char} {start stop : Nat} (some : start < stop) :
    (slice s start stop).head? = s[start]? := by
  rw [slice, List.head?_drop, List.getElem?_take_of_lt some]

theorem Written.word_iff {kind : TokenKind} {value : String} {text : List Char}
    (written : Written kind value text) {c : Char} (first : c ∈ text.head?) :
    kind = .word ↔ isWordChar c = true := by
  cases written with
  | word bare => simp [bare.plain c (List.mem_of_mem_head? first)]
  | @string _ q quote _ =>
      obtain rfl : q = c := by simpa using first
      simp [isWordChar, quote]
  | opening =>
      obtain rfl : '(' = c := by simpa using first
      decide
  | closing =>
      obtain rfl : ')' = c := by simpa using first
      decide

namespace Partition

variable {place : Nat} {s : List Char} {t : Token} {ts : List Token}

theorem nil : Partition s.length s [] where
  inside := by simp
  ordered := .nil
  written := by simp
  between i far _ c found := by simp [List.getElem?_eq_none far] at found
  apart := by simp

theorem blank (here : ∀ c ∈ s[place]?, Text.isBlank c = true) (rest : Partition (place + 1) s ts) :
    Partition place s ts where
  inside t member := by
    have := rest.inside t member
    omega
  ordered := rest.ordered
  written := rest.written
  between i far free c found := by
    rcases Nat.eq_or_lt_of_le far with rfl | later
    · exact here c found
    · exact rest.between i later free c found
  apart := rest.apart

/-- Whether a token stands at a place of a text and others partition what is behind it, where no word
goes on behind a word. -/
structure First (place : Nat) (s : List Char) (t : Token) (ts : List Token) : Prop where
  start : t.start = place
  filled : place < t.stop
  fits : t.stop ≤ s.length
  written : Written t.kind t.value (slice s place t.stop)
  ends : t.kind = .word → ∀ c ∈ s[t.stop]?, isWordChar c = false
  rest : Partition t.stop s ts

theorem First.partition (first : First place s t ts) : Partition place s (t :: ts) := by
  obtain ⟨rfl, filled, fits, written, ends, rest⟩ := first
  have late : ∀ u ∈ ts, t.stop ≤ u.start := fun u member => (rest.inside u member).1
  have apart : ∀ u ∈ ts, t.kind = .word → u.kind = .word → t.stop ≠ u.start := by
    intro u member word other touch
    have inside := rest.inside u member
    have head := head?_slice (s := s) inside.2.1
    obtain ⟨c, here⟩ : ∃ c, s[u.start]? = some c := ⟨_, List.getElem?_eq_getElem (by omega)⟩
    have plain := ((rest.written u member).word_iff (head.trans here)).mp other
    rw [← touch] at here
    simp [ends word c here] at plain
  refine ⟨?_, List.pairwise_cons.mpr ⟨late, rest.ordered⟩,
    List.forall_mem_cons.mpr ⟨written, rest.written⟩, ?_, ?_⟩
  · refine List.forall_mem_cons.mpr ⟨⟨Nat.le_refl _, filled, fits⟩, fun u member => ?_⟩
    have := rest.inside u member
    omega
  · intro i far free c found
    obtain ⟨own, others⟩ := List.forall_mem_cons.mp free
    exact rest.between i (by omega) others c found
  · refine List.forall_mem_cons.mpr ⟨?_, fun u member => ?_⟩
    · exact List.forall_mem_cons.mpr ⟨fun _ _ => by omega, apart⟩
    · refine List.forall_mem_cons.mpr ⟨fun _ _ => ?_, rest.apart u member⟩
      have := rest.inside u member
      omega

theorem tail (partition : Partition place s (t :: ts)) : Partition t.stop s ts := by
  obtain ⟨own, inside⟩ := List.forall_mem_cons.mp partition.inside
  obtain ⟨late, ordered⟩ := List.pairwise_cons.mp partition.ordered
  refine ⟨fun u member => ⟨late u member, (inside u member).2⟩, ordered,
    (List.forall_mem_cons.mp partition.written).2, fun i far free => ?_, fun u here v there => ?_⟩
  · exact partition.between i (by omega) (List.forall_mem_cons.mpr ⟨by omega, free⟩)
  · exact partition.apart u (List.mem_cons_of_mem _ here) v (List.mem_cons_of_mem _ there)

theorem step (partition : Partition place s ts) :
    (∀ c ∈ s[place]?, Text.isBlank c = true) ∧ Partition (place + 1) s ts ∨
      ∃ t us, ts = t :: us ∧ First place s t us := by
  by_cases later : ∀ t ∈ ts, place < t.start
  · have free : ∀ t ∈ ts, ¬ (t.start ≤ place ∧ place < t.stop) := by
      intro t member here
      have := later t member
      omega
    refine .inl ⟨partition.between place (Nat.le_refl _) free, ?_⟩
    exact ⟨fun t member => ⟨later t member, (partition.inside t member).2⟩, partition.ordered,
      partition.written, fun i far => partition.between i (by omega), partition.apart⟩
  · cases ts with
    | nil => simp at later
    | cons t us =>
        have rest := partition.tail
        obtain ⟨own, inside⟩ := List.forall_mem_cons.mp partition.inside
        have start : t.start = place := by
          by_contra other
          refine later (List.forall_mem_cons.mpr ⟨by omega, fun u member => ?_⟩)
          have := rest.inside u member
          omega
        have written := (List.forall_mem_cons.mp partition.written).1
        subst start
        refine .inr ⟨t, us, rfl, rfl, own.2.1, own.2.2, written, fun word c found => ?_, rest⟩
        -- a word would go on there as a token that touches this one
        rw [← Bool.not_eq_true]
        intro plain
        have solid := (isWordChar_iff.mp plain).1
        have taken : ¬ ∀ u ∈ us, ¬ (u.start ≤ t.stop ∧ t.stop < u.stop) := by
          intro free
          simp [rest.between t.stop (Nat.le_refl _) free c found] at solid
        simp only [not_forall, not_not] at taken
        obtain ⟨u, member, here, _⟩ := taken
        have touch : t.stop = u.start := Nat.le_antisymm (rest.inside u member).1 here
        have head := head?_slice (s := s) (rest.inside u member).2.1
        rw [← touch] at head
        have other := ((rest.written u member).word_iff (touch ▸ head.trans found)).mpr plain
        exact partition.apart t List.mem_cons_self u (List.mem_cons_of_mem _ member) word other touch

theorem First.of_split {before a r : List Char} (start : t.start = before.length)
    (stop : t.stop = before.length + a.length) (filled : a ≠ []) (written : Written t.kind t.value a)
    (ends : t.kind = .word → ∀ c ∈ r.head?, isWordChar c = false)
    (rest : Partition (before.length + a.length) (before ++ (a ++ r)) ts) :
    First before.length (before ++ (a ++ r)) t ts := by
  have size := List.length_pos_iff.mpr filled
  refine ⟨start, by omega, ?_, ?_, fun word => ?_, stop ▸ rest⟩
  · simp only [List.length_append]
    omega
  · rwa [stop, slice_append]
  · rw [stop, ← List.append_assoc, ← List.length_append, List.getElem?_append_right (Nat.le_refl _),
      Nat.sub_self, ← List.head?_eq_getElem?]
    exact ends word

theorem of_scans {offset : Nat} {r : List Char} (scans : Scans offset r ts) :
    ∀ before : List Char, before.length = offset → Partition offset (before ++ r) ts := by
  have moved {before a r : List Char} {n : Nat} {us : List Token} (size : a.length = n)
      (ih : ∀ b : List Char, b.length = before.length + n → Partition (before.length + n) (b ++ r) us) :
      Partition (before.length + a.length) (before ++ (a ++ r)) us := by
    subst size
    have there := ih (before ++ a) List.length_append
    rwa [List.append_assoc] at there
  induction scans with
  | nil =>
      rintro before rfl
      rw [List.append_nil]
      exact .nil
  | @blank _ c _ _ blank _ ih =>
      rintro before rfl
      exact .blank (by simpa using blank) (moved (a := [c]) rfl ih)
  | @string _ q body r _ quote enclosed _ ih =>
      rintro before rfl
      have whole : q :: (body ++ q :: r) = (q :: (body ++ [q])) ++ r := by simp
      have size : (q :: (body ++ [q])).length = body.length + 2 := by simp
      have quoted : Enclosed q (String.ofList body).toList := by rwa [String.toList_ofList]
      have written := Written.string quote quoted
      rw [String.toList_ofList] at written
      rw [whole]
      refine (First.of_split (t := ofString body before.length) rfl ?_ (by simp) written
        (fun word => nomatch word) (moved size ih)).partition
      rw [size, ← Nat.add_assoc]
      rfl
  | opening _ ih =>
      rintro before rfl
      exact (First.of_split (a := ['(']) (t := parenthesis .opening "(" before.length) rfl rfl (by simp)
        .opening (fun word => nomatch word) (moved rfl ih)).partition
  | closing _ ih =>
      rintro before rfl
      exact (First.of_split (a := [')']) (t := parenthesis .closing ")" before.length) rfl rfl (by simp)
        .closing (fun word => nomatch word) (moved rfl ih)).partition
  | @word _ w _ _ bare ends _ ih =>
      rintro before rfl
      have alone : Bare (String.ofList w).toList := by rwa [String.toList_ofList]
      have written := Written.word alone
      rw [String.toList_ofList] at written
      exact (First.of_split (t := ofWord w before.length) rfl rfl bare.nonempty written (fun _ => ends)
        (moved rfl ih)).partition

theorem First.split {before r : List Char} (first : First before.length (before ++ r) t ts) :
    ∃ a x, r = a ++ x ∧ a ≠ [] ∧ t.stop = before.length + a.length ∧ Written t.kind t.value a ∧
      (t.kind = .word → ∀ c ∈ x.head?, isWordChar c = false) ∧
      Partition (before ++ a).length (before ++ a ++ x) ts := by
  obtain ⟨start, filled, fits, written, ends, rest⟩ := first
  obtain ⟨n, stop⟩ := Nat.exists_eq_add_of_lt filled
  rw [List.length_append] at fits
  have size : (r.take (n + 1)).length = n + 1 := List.length_take_of_le (by omega)
  have whole : r = r.take (n + 1) ++ r.drop (n + 1) := (List.take_append_drop _ r).symm
  have place : t.stop = before.length + (r.take (n + 1)).length := by omega
  refine ⟨_, _, whole, ?_, place, ?_, fun word c found => ends word c ?_, ?_⟩
  · rw [← List.length_pos_iff]
    omega
  · rw [whole, place, slice_append] at written
    exact written
  · rw [place, size, List.getElem?_append_right (by omega), Nat.add_sub_cancel_left,
      ← List.head?_drop]
    exact found
  · rw [List.append_assoc, ← whole, List.length_append, ← place]
    exact rest

end Partition

theorem Scans.of_written {offset : Nat} {a x : List Char} {t : Token} {ts : List Token}
    (start : t.start = offset) (stop : t.stop = offset + a.length) (written : Written t.kind t.value a)
    (ends : t.kind = .word → ∀ c ∈ x.head?, isWordChar c = false)
    (rest : Scans (offset + a.length) x ts) : Scans offset (a ++ x) (t :: ts) := by
  obtain ⟨kind, value, first, last⟩ := t
  obtain rfl : first = offset := start
  obtain rfl : last = first + a.length := stop
  dsimp only at written ends
  cases written with
  | word bare => simpa [ofWord] using Scans.word bare (ends rfl) rest
  | @string _ q quote enclosed =>
      have inner : Scans (first + value.toList.length + 2) x ts := by simpa [Nat.add_assoc] using rest
      simpa [ofString, Nat.add_assoc] using Scans.string quote enclosed inner
  | opening => exact .opening rest
  | closing => exact .closing rest

theorem Partition.scans {before r : List Char} {ts : List Token}
    (partition : Partition before.length (before ++ r) ts) : Scans before.length r ts := by
  -- by how much of the text is left: at its place stands a blank, or the first token of those left
  induction size : r.length using Nat.strong_induction_on generalizing before r ts with
  | _ n ih =>
    rcases partition.step with ⟨blank, rest⟩ | ⟨t, us, rfl, first⟩
    · cases r with
      | nil =>
          cases ts with
          | nil => exact .nil _
          | cons t ts =>
              have := rest.inside t List.mem_cons_self
              simp only [List.append_nil] at this
              omega
      | cons c r =>
          have inner : Scans (before ++ [c]).length r ts :=
            ih r.length (by simp [← size]) (by simpa using rest) rfl
          refine .blank (blank c (by simp)) ?_
          rwa [List.length_append] at inner
    · obtain ⟨a, x, rfl, filled, stop, written, ends, rest⟩ := first.split
      have shorter := List.length_pos_iff.mpr filled
      have inner := ih x.length (by rw [← size, List.length_append]; omega) rest rfl
      rw [List.length_append] at inner
      exact .of_written first.start stop written ends inner

/-- A text has no tokens exactly if a reading of it ends in a string; the error names the place of the
quote that opened it. Otherwise its tokens are those that partition it. -/
theorem tokenize_partitions (s : List Char) :
    ((∃ e, tokenize s = .error e) ↔ Reading.after s ≠ .outside) ∧
    (∀ e, tokenize s = .error e ↔ ∃ before q r, s = before ++ q :: r ∧ LeavesOpen before q r ∧
      e = .unterminatedString (before.length + 1)) ∧
    ∀ ts, tokenize s = .ok ts ↔ Partition 0 s ts := by
  refine ⟨⟨?_, ?_⟩, fun e => tokenize_eq_error_iff, fun ts => ?_⟩
  · rintro ⟨e, failed⟩
    obtain ⟨before, q, r, rfl, opened, _⟩ := tokenize_eq_error_iff.mp failed
    rw [← List.append_nil r] at opened
    exact opened.not_outside
  · intro inside
    cases read : tokenize s with
    | error e => exact ⟨e, rfl⟩
    | ok ts => exact absurd (Reading.of_scans (tokenize_eq_ok_iff.mp read)) inside
  · rw [tokenize_eq_ok_iff]
    refine ⟨fun scans => .of_scans scans [] rfl, fun partition => ?_⟩
    have here : Partition ([] : List Char).length ([] ++ s) ts := partition
    exact here.scans

end FileQuery.Token
