import FileQuery.Proofs.Statement.Token
import FileQuery.Proofs.Where.Cuts

/-! # What is quoted

The tokens of a line and the reading of a condition text find strings in two ways: for the tokens a
backslash keeps the next character inside the string, for the reading a quote ends a string unless a
backslash comes right before it. They agree on a text exactly when no string in it ends with a
backslash (`agrees_iff`). -/
set_option autoImplicit false
namespace FileQuery.Where

open Token (Scans Enclosed)

/-! ## Strings -/

def NoTrailing (ts : List Token) : Prop :=
  ∀ t ∈ ts, t.kind = .string → t.value.toList.getLast? ≠ some '\\'

theorem noTrailing_cons {t : Token} {ts : List Token} :
    NoTrailing (t :: ts) ↔
      (t.kind = .string → t.value.toList.getLast? ≠ some '\\') ∧ NoTrailing ts := by
  simp [NoTrailing]

theorem noTrailing_append {ts us : List Token} :
    NoTrailing (ts ++ us) ↔ NoTrailing ts ∧ NoTrailing us := by
  simp only [NoTrailing, List.mem_append]
  constructor
  · intro all
    exact ⟨fun t member => all t (Or.inl member), fun t member => all t (Or.inr member)⟩
  · rintro ⟨left, right⟩ t (member | member)
    · exact left t member
    · exact right t member

namespace Reading

theorem after_enclosed {q : Char} (quote : Token.isQuote q = true) {body : List Char}
    (enclosed : Enclosed q body) (flag : Bool) (depth : Nat) {p : List Char} (part : p <+: body) :
    ∃ now, after ⟨⟨some q, flag⟩, depth⟩ p = ⟨⟨some q, now⟩, depth⟩ := by
  induction enclosed generalizing flag p with
  | nil =>
      rw [List.prefix_nil.mp part]
      exact ⟨flag, rfl⟩
  | @plain c r other bare _ ih =>
      cases p with
      | nil => exact ⟨flag, rfl⟩
      | cons e p =>
          obtain ⟨rfl, rest⟩ := List.cons_prefix_cons.mp part
          have step : next ⟨⟨some q, flag⟩, depth⟩ e = ⟨⟨some q, e == '\\'⟩, depth⟩ := by
            simp [next, Quoting.next, Quoting.inside, other]
          rw [after_cons, step]
          exact ih _ rest
  | @escaped d r _ ih =>
      -- the part can end between the backslash and the character it keeps
      have first : next ⟨⟨some q, flag⟩, depth⟩ '\\' = ⟨⟨some q, true⟩, depth⟩ := by
        simp [next, Quoting.next, Quoting.inside, Token.quote_ne_backslash quote]
      have second : next ⟨⟨some q, true⟩, depth⟩ d = ⟨⟨some q, d == '\\'⟩, depth⟩ := by
        simp [next, Quoting.next, Quoting.inside]
      obtain _ | ⟨e, _ | ⟨f, p⟩⟩ := p
      · exact ⟨flag, rfl⟩
      · obtain ⟨rfl, _⟩ := List.cons_prefix_cons.mp part
        exact ⟨true, by rw [after_cons, first]; rfl⟩
      · obtain ⟨rfl, tail⟩ := List.cons_prefix_cons.mp part
        obtain ⟨rfl, inner⟩ := List.cons_prefix_cons.mp tail
        rw [after_cons, first, after_cons, second]
        exact ih _ inner

theorem afterBackslash_after (s : Reading) (p : List Char) :
    (s.after p).quoting.afterBackslash =
      (p.getLast?.map (· == '\\')).getD s.quoting.afterBackslash := by
  rcases List.eq_nil_or_concat p with rfl | ⟨a, c, rfl⟩
  · rfl
  · rw [List.concat_eq_append, after_append, List.getLast?_concat]
    rfl

theorem quote_beq_backslash {q : Char} (quote : Token.isQuote q = true) : (q == '\\') = false := by
  simpa using (Token.quote_ne_backslash quote).symm

theorem next_quote {s : Reading} (outside : s.Outside) {q : Char}
    (quote : Token.isQuote q = true) : s.next q = ⟨⟨some q, false⟩, s.depth⟩ := by
  have unquoted : s.quoting.quote = none := outside
  have quote' : Quoting.isQuote q = true := quote
  obtain ⟨opening, closing⟩ := ne_paren_of_isQuote quote
  simp [next, Quoting.next, inside_of_outside outside, unquoted, quote',
    quote_beq_backslash quote, depthAfter_of_ne opening closing]

theorem inside_of_prefix {s : Reading} (outside : s.Outside) {q : Char}
    (quote : Token.isQuote q = true) {body p : List Char} (enclosed : Enclosed q body)
    (part : p <+: body) : ¬ (s.after (q :: p)).Outside := by
  intro closed
  obtain ⟨now, same⟩ := after_enclosed quote enclosed false s.depth part
  rw [after_cons, next_quote outside quote, same] at closed
  exact absurd closed (by simp [Outside])

/-- A string is closed where it ends exactly when it does not end with a backslash. -/
theorem after_string {s : Reading} (outside : s.Outside) {q : Char}
    (quote : Token.isQuote q = true) {body : List Char} (enclosed : Enclosed q body) :
    s.after (q :: (body ++ [q])) =
      ⟨⟨if body.getLast? = some '\\' then some q else none, false⟩, s.depth⟩ := by
  obtain ⟨now, same⟩ := after_enclosed quote enclosed false s.depth List.prefix_rfl
  have flag := afterBackslash_after ⟨⟨some q, false⟩, s.depth⟩ body
  rw [same] at flag
  simp only at flag
  -- the reading only knows the character right before the closing quote
  have ends : now = decide (body.getLast? = some '\\') := by
    rw [flag]
    cases body.getLast? with
    | none => rfl
    | some c =>
        simp only [Option.map_some, Option.getD_some, Option.some.injEq]
        rfl
  rw [after_cons, next_quote outside quote, after_append, same, after_cons, after_nil, ends]
  simp [next, Quoting.next, Quoting.inside, quote_beq_backslash quote]

end Reading

/-! ## Agreement -/

/-- Whether the tokens of a line hold the character at an offset inside a string. -/
def TokensQuote (ts : List Token) (i : Nat) : Prop :=
  ∃ t ∈ ts, t.kind = .string ∧ t.start < i ∧ i + 1 < t.stop

/-- Whether a reading holds a character of the text inside a string: it is inside one before the
character and after it. -/
def Reading.Quotes (s : Reading) (text : List Char) (i : Nat) : Prop :=
  ¬ (s.after (text.take i)).Outside ∧ ¬ (s.after (text.take (i + 1))).Outside

/-- Whether tokens of a text at an offset and a reading of it hold the same characters inside
strings. -/
def Agrees (s : Reading) (offset : Nat) (text : List Char) (ts : List Token) : Prop :=
  ∀ i < text.length, TokensQuote ts (offset + i) ↔ s.Quotes text i

theorem quotes_append_left (s : Reading) {a : List Char} (r : List Char) {i : Nat}
    (within : i < a.length) : s.Quotes (a ++ r) i ↔ s.Quotes a i := by
  rw [Reading.Quotes, List.take_append_of_le_length (by omega),
    List.take_append_of_le_length (by omega), Reading.Quotes]

theorem quotes_append_right (s : Reading) (a r : List Char) (i : Nat) :
    s.Quotes (a ++ r) (a.length + i) ↔ (s.after a).Quotes r i := by
  rw [Reading.Quotes, Nat.add_assoc, List.take_length_add_append, List.take_length_add_append,
    Reading.after_append, Reading.after_append, Reading.Quotes]

theorem tokensQuote_append_left {us ts : List Token} {i bound : Nat} (within : i < bound)
    (beyond : ∀ t ∈ ts, bound ≤ t.start) : TokensQuote (us ++ ts) i ↔ TokensQuote us i := by
  constructor
  · rintro ⟨t, member, string, start, stop⟩
    rcases List.mem_append.mp member with h | h
    · exact ⟨t, h, string, start, stop⟩
    · have := beyond t h
      omega
  · rintro ⟨t, member, rest⟩
    exact ⟨t, List.mem_append_left ts member, rest⟩

theorem tokensQuote_append_right {us ts : List Token} {i bound : Nat} (beyond : bound ≤ i)
    (within : ∀ t ∈ us, t.stop ≤ bound) : TokensQuote (us ++ ts) i ↔ TokensQuote ts i := by
  constructor
  · rintro ⟨t, member, string, start, stop⟩
    rcases List.mem_append.mp member with h | h
    · have := within t h
      omega
    · exact ⟨t, h, string, start, stop⟩
  · rintro ⟨t, member, rest⟩
    exact ⟨t, List.mem_append_right us member, rest⟩

theorem agrees_append {s : Reading} {offset : Nat} {a r : List Char} {us ts : List Token}
    (within : ∀ t ∈ us, t.stop ≤ offset + a.length)
    (beyond : ∀ t ∈ ts, offset + a.length ≤ t.start) :
    Agrees s offset (a ++ r) (us ++ ts) ↔
      Agrees s offset a us ∧ Agrees (s.after a) (offset + a.length) r ts := by
  constructor
  · intro all
    constructor
    · intro i inside
      rw [← quotes_append_left s r inside,
        ← all i (by rw [List.length_append]; omega),
        tokensQuote_append_left (by omega) beyond]
    · intro i inside
      rw [← quotes_append_right s a r i, ← all _ (by rw [List.length_append]; omega),
        ← Nat.add_assoc, tokensQuote_append_right (by omega) within]
  · rintro ⟨left, right⟩ i inside
    by_cases here : i < a.length
    · rw [tokensQuote_append_left (by omega) beyond, quotes_append_left s r here]
      exact left i here
    · rw [List.length_append] at inside
      obtain ⟨j, rfl⟩ := Nat.exists_eq_add_of_le (Nat.le_of_not_lt here)
      rw [← Nat.add_assoc, tokensQuote_append_right (by omega) within, quotes_append_right]
      exact right j (by omega)

theorem agrees_of_outside {s : Reading} {a : List Char}
    (outside : ∀ p, p <+: a → (s.after p).Outside) {us : List Token}
    (none : ∀ t ∈ us, t.kind ≠ .string) (offset : Nat) : Agrees s offset a us := by
  intro i _
  constructor
  · rintro ⟨t, member, string, _⟩
    exact absurd string (none t member)
  · rintro ⟨inside, _⟩
    exact absurd (outside _ (List.take_prefix i a)) inside

theorem agrees_of_unmarked {s : Reading} (outside : s.Outside) {a : List Char}
    (plain : ∀ c ∈ a, Unmarked c) {us : List Token} (none : ∀ t ∈ us, t.kind ≠ .string)
    (offset : Nat) : Agrees s offset a us := by
  refine agrees_of_outside ?_ none offset
  intro p part
  exact (Reading.after_unmarked outside fun c member => plain c (part.subset member)).1

theorem noTrailing_of_kind {t : Token} (other : t.kind ≠ .string) : NoTrailing [t] := by
  intro u member string
  rw [List.mem_singleton.mp member] at string
  exact absurd string other

theorem outside_parenthesis {s : Reading} (outside : s.Outside) {c : Char}
    (plain : Quoting.isQuote c = false) : (s.next c).Outside := by
  have unquoted : s.quoting.quote = none := outside
  simp [Reading.next, Reading.Outside, Quoting.next, unquoted, plain]

theorem agrees_parenthesis {s : Reading} (outside : s.Outside) {c : Char}
    (plain : Quoting.isQuote c = false) {t : Token} (other : t.kind ≠ .string) (offset : Nat) :
    Agrees s offset [c] [t] ↔ NoTrailing [t] := by
  refine iff_of_true (agrees_of_outside ?_ (by simpa using other) offset) (noTrailing_of_kind other)
  intro p part
  rcases List.prefix_cons_iff.mp part with rfl | ⟨r, rfl, rest⟩
  · exact outside
  · rw [List.prefix_nil.mp rest]
    exact outside_parenthesis outside plain

/-- The characters inside a string are its body, if it does not end with a backslash; otherwise the
reading takes the closing quote for one of them. -/
theorem agrees_string {s : Reading} (outside : s.Outside) {q : Char}
    (quote : Token.isQuote q = true) {body : List Char} (enclosed : Enclosed q body)
    (offset : Nat) :
    Agrees s offset (q :: (body ++ [q])) [Token.ofString body offset] ↔
      body.getLast? ≠ some '\\' := by
  have whole := Reading.after_string outside quote enclosed
  have tokens : ∀ i, TokensQuote [Token.ofString body offset] (offset + i) ↔
      0 < i ∧ i ≤ body.length := by
    intro i
    simp only [TokensQuote, List.mem_singleton, exists_eq_left, Token.ofString, true_and]
    omega
  have within_body : ∀ j, j ≤ body.length → ¬ (s.after ((q :: (body ++ [q])).take (j + 1))).Outside := by
    intro j short
    rw [List.take_succ_cons, List.take_append_of_le_length short]
    exact Reading.inside_of_prefix outside quote enclosed (List.take_prefix j body)
  have last : (s.after ((q :: (body ++ [q])).take (body.length + 1 + 1))).Outside ↔
      body.getLast? ≠ some '\\' := by
    rw [List.take_of_length_le (by simp), whole]
    by_cases trailing : body.getLast? = some '\\' <;> simp [Reading.Outside, trailing]
  constructor
  · intro all trailing
    -- the closing quote is where they part: the reading is inside before it and after it
    have here := all (body.length + 1) (by simp)
    rw [tokens, Reading.Quotes] at here
    have quoted := here.mpr ⟨within_body _ (Nat.le_refl _), fun h => last.mp h trailing⟩
    omega
  · intro sound i short
    rw [tokens, Reading.Quotes]
    simp only [List.length_cons, List.length_append, List.length_nil] at short
    cases i with
    | zero =>
        refine iff_of_false (by omega) ?_
        rintro ⟨before, _⟩
        exact before outside
    | succ j =>
        by_cases within : j + 1 ≤ body.length
        · exact iff_of_true (by omega) ⟨within_body j (by omega), within_body (j + 1) within⟩
        · have same : j = body.length := by omega
          subst same
          refine iff_of_false (by omega) ?_
          rintro ⟨_, behind⟩
          exact behind (last.mpr sound)

theorem agrees_step {s : Reading} {offset : Nat} {a r : List Char} {us ts : List Token}
    (own : Agrees s offset a us ↔ NoTrailing us)
    (within : ∀ t ∈ us, t.stop ≤ offset + a.length)
    (rest : Scans (offset + a.length) r ts)
    (behind : NoTrailing us →
      (Agrees (s.after a) (offset + a.length) r ts ↔ NoTrailing ts)) :
    Agrees s offset (a ++ r) (us ++ ts) ↔ NoTrailing (us ++ ts) := by
  rw [agrees_append within rest.offset_le_start, noTrailing_append, own]
  exact and_congr_right behind

theorem noTrailing_string (body : List Char) (offset : Nat) :
    NoTrailing [Token.ofString body offset] ↔ body.getLast? ≠ some '\\' := by
  simp [NoTrailing, Token.ofString]

/-- Tokens and reading agree on what is quoted exactly when no string ends with a backslash. -/
theorem agrees_iff {s : Reading} {offset : Nat} {text : List Char} {ts : List Token}
    (scans : Scans offset text ts) (outside : s.Outside) :
    Agrees s offset text ts ↔ NoTrailing ts := by
  induction scans generalizing s with
  | nil offset => simp [Agrees, NoTrailing]
  | @blank offset c r ts blank rest ih =>
      have own : Agrees s offset [c] [] ↔ NoTrailing [] :=
        iff_of_true (agrees_of_unmarked outside (by simpa using unmarked_of_isBlank blank) (by simp)
          offset) (by simp [NoTrailing])
      exact agrees_step own (by simp) rest fun _ => ih (Reading.next_blank outside blank).1
  | @string offset q body r ts quote enclosed rest ih =>
      have own : Agrees s offset (q :: (body ++ [q])) [Token.ofString body offset] ↔
          NoTrailing [Token.ofString body offset] := by
        rw [agrees_string outside quote enclosed, noTrailing_string]
      have size : (q :: (body ++ [q])).length = body.length + 2 := by simp
      have whole : q :: (body ++ q :: r) = (q :: (body ++ [q])) ++ r := by simp
      rw [whole]
      refine agrees_step own ?_ (by rwa [size, ← Nat.add_assoc]) ?_
      · simp [Token.ofString, Nat.add_assoc]
      · intro sound
        rw [noTrailing_string] at sound
        rw [size, ← Nat.add_assoc]
        apply ih
        rw [Reading.after_string outside quote enclosed, if_neg sound]
        rfl
  | @opening offset r ts rest ih =>
      have own := agrees_parenthesis outside (c := '(') (by decide)
        (t := Token.parenthesis .opening "(" offset) (by simp [Token.parenthesis]) offset
      exact agrees_step own (by simp [Token.parenthesis]) rest
        fun _ => ih (outside_parenthesis outside (by decide))
  | @closing offset r ts rest ih =>
      have own := agrees_parenthesis outside (c := ')') (by decide)
        (t := Token.parenthesis .closing ")" offset) (by simp [Token.parenthesis]) offset
      exact agrees_step own (by simp [Token.parenthesis]) rest
        fun _ => ih (outside_parenthesis outside (by decide))
  | @word offset w r ts bare ends rest ih =>
      have own : Agrees s offset w [Token.ofWord w offset] ↔
          NoTrailing [Token.ofWord w offset] :=
        iff_of_true (agrees_of_unmarked outside
          (fun c member => unmarked_of_isWordChar (bare.plain c member)) (by simp [Token.ofWord])
          offset) (noTrailing_of_kind (by simp [Token.ofWord]))
      exact agrees_step own (by simp [Token.ofWord]) rest
        fun _ => ih (Reading.after_word outside bare.plain).1

end FileQuery.Where
