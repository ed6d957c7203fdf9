import FileQuery.Proofs.Where.Quoted

/-! # Keywords between conditions

Where no string ends with a backslash, a word between blanks is a token outside parentheses exactly
when the clause is cut there (`routed_iff`, `cut_iff`), and conditions on quoted strings that AND and
OR join are read back as they stand (`QuotedCondition.operand`). -/
set_option autoImplicit false
namespace FileQuery.Where

open Token (Scans Enclosed)

theorem after_parenthesis {s : Reading} (outside : s.Outside) :
    s.next '(' = ⟨⟨none, false⟩, s.depth + 1⟩ ∧ s.next ')' = ⟨⟨none, false⟩, s.depth - 1⟩ := by
  have unquoted : s.quoting.quote = none := outside
  simp [Reading.next, Quoting.next, Reading.inside_of_outside outside, unquoted, Quoting.isQuote,
    depthAfter]

/-- Where no string ends with a backslash, a reading ends outside strings and at the depth after the
tokens. -/
theorem after_of_scans {s : Reading} {offset : Nat} {text : List Char} {ts : List Token}
    (scans : Scans offset text ts) (sound : NoTrailing ts) (outside : s.Outside) :
    (s.after text).Outside ∧ (s.after text).depth = Token.levelAfter s.depth ts := by
  induction scans generalizing s with
  | nil => exact ⟨outside, rfl⟩
  | blank blank _ ih =>
      have step := Reading.next_blank outside blank
      rw [Reading.after_cons, ← step.2]
      exact ih sound step.1
  | @string offset q body r ts quote enclosed _ ih =>
      have both := noTrailing_cons.mp sound
      have ends : body.getLast? ≠ some '\\' := by
        have own := both.1 rfl
        rwa [Token.ofString, String.toList_ofList] at own
      have closed := Reading.after_string outside quote enclosed
      rw [if_neg ends] at closed
      have whole : q :: (body ++ q :: r) = (q :: (body ++ [q])) ++ r := by simp
      rw [whole, Reading.after_append, closed]
      exact ih (s := ⟨⟨none, false⟩, s.depth⟩) both.2 rfl
  | opening _ ih =>
      rw [Reading.after_cons, (after_parenthesis outside).1]
      exact ih (s := ⟨⟨none, false⟩, s.depth + 1⟩) (noTrailing_cons.mp sound).2 rfl
  | closing _ ih =>
      rw [Reading.after_cons, (after_parenthesis outside).2]
      exact ih (s := ⟨⟨none, false⟩, s.depth - 1⟩) (noTrailing_cons.mp sound).2 rfl
  | word bare _ _ ih =>
      have step := Reading.after_word outside bare.plain
      rw [Reading.after_append, Token.levelAfter]
      rw [← step.2]
      exact ih (noTrailing_cons.mp sound).2 step.1

theorem split_outside_step {s : Reading} {offset : Nat} {a r l x : List Char}
    {u ts : List Token} (whole : Scans offset (a ++ r) (u ++ ts))
    (extend : ∀ m y vs, r = m ++ y → Scans (offset + a.length) m vs →
      Scans offset (a ++ m) (u ++ vs))
    (ih : ∀ {m : List Char}, m ++ x = r → ((s.after a).after m).Outside →
      (∀ c ∈ m.getLast?, Text.isBlank c = true) → ∃ before behind, ts = before ++ behind ∧
        Scans (offset + a.length) m before ∧ Scans (offset + a.length + m.length) x behind)
    (proper : ∀ c y, a = l ++ c :: y → l = []) (all : l ++ x = a ++ r)
    (outside : (s.after l).Outside) (ends : ∀ c ∈ l.getLast?, Text.isBlank c = true) :
    ∃ before behind, u ++ ts = before ++ behind ∧ Scans offset l before ∧
      Scans (offset + l.length) x behind := by
  -- the point stands before `a`, which is whole, or somewhere behind it
  have start : l = [] → ∃ before behind, u ++ ts = before ++ behind ∧ Scans offset l before ∧
      Scans (offset + l.length) x behind := by
    rintro rfl
    rw [List.nil_append] at all
    exact ⟨[], u ++ ts, rfl, .nil offset, by rwa [all]⟩
  have longer : ∀ m, l = a ++ m → m ++ x = r → ∃ before behind, u ++ ts = before ++ behind ∧
      Scans offset l before ∧ Scans (offset + l.length) x behind := by
    rintro m rfl same
    rw [Reading.after_append] at outside
    have last : ∀ c ∈ m.getLast?, Text.isBlank c = true :=
      fun c member => ends c (Text.mem_getLast_append member a)
    obtain ⟨before, behind, rfl, left, right⟩ := ih same outside last
    refine ⟨u ++ before, behind, by rw [List.append_assoc], extend m x before same.symm left, ?_⟩
    rwa [List.length_append, ← Nat.add_assoc]
  rcases List.append_eq_append_iff.mp all with ⟨m, rfl, same⟩ | ⟨m, rfl, same⟩
  · cases m with
    | nil => exact longer [] (by simp) (by simpa using same)
    | cons c y => exact start (proper c y rfl)
  · exact longer m rfl same.symm

theorem eq_nil_of_singleton {c d : Char} {l y : List Char} (same : [c] = l ++ d :: y) : l = [] := by
  cases l with
  | nil => rfl
  | cons e l => exact absurd (congrArg List.length same) (by simp)

theorem eq_nil_of_word {w l y : List Char} {c : Char} (bare : Token.Bare w)
    (ends : ∀ d ∈ l.getLast?, Text.isBlank d = true) (same : w = l ++ c :: y) : l = [] := by
  rcases List.eq_nil_or_concat l with rfl | ⟨m, z, rfl⟩
  · rfl
  · have blank := ends z (by simp)
    have plain := bare.plain z (by simp [same])
    rw [Token.isWordChar_of_isBlank blank] at plain
    exact absurd plain (by decide)

theorem eq_nil_of_string {s : Reading} (outside : s.Outside) {q : Char}
    (quote : Token.isQuote q = true) {body l y : List Char} {c : Char}
    (enclosed : Enclosed q body) (here : (s.after l).Outside)
    (same : q :: (body ++ [q]) = l ++ c :: y) : l = [] := by
  cases l with
  | nil => rfl
  | cons e l =>
      simp only [List.cons_append, List.cons.injEq] at same
      obtain ⟨rfl, rest⟩ := same
      -- a point inside the string is a point inside a string for the reading as well
      have part : l <+: body ++ [q] := ⟨c :: y, rest.symm⟩
      rcases List.prefix_concat_iff.mp part with whole | inner
      · have := congrArg List.length rest
        rw [whole] at this
        simp at this
      · exact absurd here (Reading.inside_of_prefix outside quote enclosed inner)

theorem split_outside {s : Reading} {offset : Nat} {l x : List Char} {ts : List Token}
    (scans : Scans offset (l ++ x) ts) (sound : NoTrailing ts) (outside : s.Outside)
    (here : (s.after l).Outside) (ends : ∀ c ∈ l.getLast?, Text.isBlank c = true) :
    ∃ before behind, ts = before ++ behind ∧ Scans offset l before ∧
      Scans (offset + l.length) x behind := by
  generalize all : l ++ x = text at scans
  induction scans generalizing s l with
  | nil offset =>
      obtain ⟨rfl, rfl⟩ := List.append_eq_nil_iff.mp all
      exact ⟨[], [], rfl, .nil offset, .nil _⟩
  | @blank offset c r ts blank rest ih =>
      have step := (Reading.next_blank outside blank).1
      exact split_outside_step (a := [c]) (u := []) (.blank blank rest)
        (fun _ _ _ _ left => .blank blank left)
        (fun same inner last => ih sound step inner last same)
        (fun _ _ => eq_nil_of_singleton) all here ends
  | @string offset q body r ts quote enclosed rest ih =>
      have pair : NoTrailing ([Token.ofString body offset] ++ ts) := sound
      have both := noTrailing_append.mp pair
      have closed := Reading.after_string outside quote enclosed
      rw [if_neg ((noTrailing_string body offset).mp both.1)] at closed
      have size : (q :: (body ++ [q])).length = body.length + 2 := by simp
      have joined : ∀ x, q :: (body ++ q :: x) = (q :: (body ++ [q])) ++ x := by simp
      refine split_outside_step (u := [Token.ofString body offset])
        (joined r ▸ .string quote enclosed rest) ?_ ?_
        (fun _ _ => eq_nil_of_string outside quote enclosed here) (joined r ▸ all) here ends
      · intro m y vs _ left
        rw [size, ← Nat.add_assoc] at left
        exact joined m ▸ .string quote enclosed left
      · intro m same inner last
        rw [closed] at inner
        rw [size, ← Nat.add_assoc]
        exact ih (s := ⟨⟨none, false⟩, s.depth⟩) both.2 rfl inner last same
  | @opening offset r ts rest ih =>
      have step := outside_parenthesis outside (c := '(') (by decide)
      exact split_outside_step (a := ['(']) (u := [Token.parenthesis .opening "(" offset])
        (.opening rest) (fun _ _ _ _ left => .opening left)
        (fun same inner last => ih (noTrailing_cons.mp sound).2 step inner last same)
        (fun _ _ => eq_nil_of_singleton) all here ends
  | @closing offset r ts rest ih =>
      have step := outside_parenthesis outside (c := ')') (by decide)
      exact split_outside_step (a := [')']) (u := [Token.parenthesis .closing ")" offset])
        (.closing rest) (fun _ _ _ _ left => .closing left)
        (fun same inner last => ih (noTrailing_cons.mp sound).2 step inner last same)
        (fun _ _ => eq_nil_of_singleton) all here ends
  | @word offset w r ts bare stops rest ih =>
      have step := (Reading.after_word outside bare.plain).1
      refine split_outside_step (u := [Token.ofWord w offset]) (.word bare stops rest) ?_
        (fun same inner last => ih (noTrailing_cons.mp sound).2 step inner last same)
        (fun _ _ => eq_nil_of_word bare ends) all here ends
      rintro m y vs rfl left
      refine .word bare ?_ left
      intro c member
      cases m with
      | nil => exact absurd member (by simp)
      | cons d m => exact stops c member

/-- Whether blanks, or the ends of the text, part what stands between two texts from them. -/
structure Parted (l r : List Char) : Prop where
  before : ∀ c ∈ l.getLast?, Text.isBlank c = true
  behind : ∀ c ∈ r.head?, Text.isBlank c = true

instance (l r : List Char) : Decidable (Parted l r) :=
  decidable_of_iff (l.getLast?.all Text.isBlank = true ∧ r.head?.all Text.isBlank = true)
    ⟨fun h => ⟨(Option.all_eq_true _ _).mp h.1, (Option.all_eq_true _ _).mp h.2⟩,
      fun h => ⟨(Option.all_eq_true _ _).mpr h.before, (Option.all_eq_true _ _).mpr h.behind⟩⟩

/-- Whether a word is a token of its own at an offset, outside parentheses. -/
def Routed (ts : List Token) (k : List Char) (offset : Nat) : Prop :=
  ∃ before behind, ts = before ++ Token.ofWord k offset :: behind ∧ Token.levelAfter 0 before = 0

/-- Whether a word after a stretch of a text is a run of its own, outside parentheses. -/
def Cut (text l k : List Char) : Prop :=
  ∃ before behind, Piece.scan {} 0 text = before ++ .word 0 k :: behind ∧
    before.flatMap Piece.text = l

theorem word_of_scans {offset : Nat} {l k r : List Char} {ts : List Token}
    (parted : Parted l r) (bare : Token.Bare k) (scans : Scans offset (k ++ r) ts) :
    ∃ behind, ts = Token.ofWord k offset :: behind := by
  have stops : ∀ c ∈ r.head?, Token.isWordChar c = false :=
    fun c member => Token.isWordChar_of_isBlank (parted.behind c member)
  have taken := (Token.span_bare bare.plain stops).1
  obtain ⟨c, m, rfl⟩ := List.exists_cons_of_ne_nil bare.nonempty
  have first := Token.isWordChar_iff.mp (bare.plain c (by simp))
  generalize all : c :: m ++ r = text at scans
  rw [all] at taken
  cases scans with
  | nil => exact absurd all (by simp)
  | blank blank _ =>
      obtain ⟨rfl, _⟩ := List.cons.inj all
      rw [first.1] at blank
      exact absurd blank (by decide)
  | string quote _ _ =>
      obtain ⟨rfl, _⟩ := List.cons.inj all
      rw [first.2.1] at quote
      exact absurd quote (by decide)
  | opening _ => exact absurd (List.cons.inj all).1 first.2.2.1
  | closing _ => exact absurd (List.cons.inj all).1 first.2.2.2
  | word other ends' _ =>
      rw [(Token.span_bare other.plain ends').1] at taken
      exact ⟨_, by rw [taken]⟩

theorem routed_iff {l k r : List Char} {ts : List Token} (parted : Parted l r)
    (bare : Token.Bare k) (scans : Scans 0 (l ++ (k ++ r)) ts) (sound : NoTrailing ts) :
    Routed ts k l.length ↔ (Reading.after {} l).Outside ∧ (Reading.after {} l).depth = 0 := by
  constructor
  · rintro ⟨before, behind, rfl, level⟩
    obtain ⟨m, x, same, start, left, _⟩ := scans.split
    have length : l.length = m.length := by
      simpa [Token.ofWord] using start
    obtain ⟨rfl, _⟩ := List.append_inj same length
    have done := after_of_scans (s := {}) left (noTrailing_append.mp sound).1 rfl
    exact ⟨done.1, done.2.trans level⟩
  · rintro ⟨outside, level⟩
    obtain ⟨before, rest, rfl, left, right⟩ :=
      split_outside (s := {}) scans sound rfl outside parted.before
    have done := after_of_scans (s := {}) left (noTrailing_append.mp sound).1 rfl
    rw [Nat.zero_add] at right
    obtain ⟨behind, rfl⟩ := word_of_scans parted bare right
    exact ⟨before, behind, rfl, done.2.symm.trans level⟩

theorem scan_word_parted {l k r : List Char} (parted : Parted l r) (bare : Token.Bare k) :
    Piece.scan {} 0 (k ++ r) = .word 0 k :: Piece.scan {} 0 r := by
  cases r with
  | nil =>
      rw [List.append_nil, Piece.scan_word rfl 0 bare]
      rfl
  | cons c r =>
      have gap := Text.gap_singleton (parted.behind c rfl)
      have behind := Piece.scan_blanks (q := {}) rfl 0 gap.blanks r
      have runs := Piece.scan_word_append (q := {}) rfl 0 bare gap r
      rw [← behind] at runs
      exact runs

theorem scan_append_of_ends {l : List Char} (ends : ∀ c ∈ l.getLast?, Text.isBlank c = true)
    (outside : (Reading.after {} l).Outside) (level : (Reading.after {} l).depth = 0)
    (x : List Char) : Piece.scan {} 0 (l ++ x) = Piece.scan {} 0 l ++ Piece.scan {} 0 x := by
  rcases List.eq_nil_or_concat l with rfl | ⟨m, b, rfl⟩
  · rfl
  · have blank := ends b (by simp)
    rw [List.concat_eq_append] at outside level ⊢
    have prior := Reading.outside_of_after_blanks (Text.gap_singleton blank).blanks outside
    have step := Reading.next_blank prior blank
    rw [Reading.after_append, Reading.after_cons, Reading.after_nil, step.2] at level
    have runs := Piece.scan_append_gap {} m x prior blank
    have own := Piece.scan_append_gap {} m [] prior blank
    rw [level] at runs own
    have left : Piece.scan {} 0 (m ++ [b]) = Piece.scan {} 0 m ++ [.gap b] := own
    rw [left, List.append_assoc, List.append_assoc]
    exact runs

theorem cut_iff {l k r : List Char} (parted : Parted l r) (bare : Token.Bare k) :
    Cut (l ++ (k ++ r)) l k ↔
      (Reading.after {} l).Outside ∧ (Reading.after {} l).depth = 0 := by
  constructor
  · rintro ⟨before, behind, runs, rfl⟩
    have found := Piece.scan_eq_append_word runs bare
    exact ⟨found.1, found.2.1⟩
  · rintro ⟨outside, level⟩
    refine ⟨Piece.scan {} 0 l, Piece.scan {} 0 r, ?_, Piece.text_scan _ _ _⟩
    rw [scan_append_of_ends parted.before outside level, scan_word_parted parted bare]

/-! ## Conditions on quoted strings -/

/-- A condition on a quoted string: words and blanks, none of the words AND or OR, and then the
string, right after a word or after a blank. -/
structure QuotedCondition where
  lead : List Char
  stem : List Char
  quote : Char
  body : List Char
  leading : ∀ c ∈ lead, Text.isBlank c = true ∨ Token.isWordChar c = true
  starts : ∀ c ∈ lead.head?, Text.isBlank c = false
  parted : ∀ c ∈ lead.getLast?, Text.isBlank c = true
  notAnd : Free "AND" lead
  notOr : Free "OR" lead
  plain : ∀ c ∈ stem, Token.isWordChar c = true
  isQuote : Token.isQuote quote = true
  enclosed : Enclosed quote body

theorem Reading.after_plain {s : Reading} (outside : s.Outside) {a : List Char}
    (plain : ∀ c ∈ a, Text.isBlank c = true ∨ Token.isWordChar c = true) :
    (s.after a).Outside ∧ (s.after a).depth = s.depth := by
  apply after_unmarked outside
  intro c member
  rcases plain c member with blank | word
  · exact unmarked_of_isBlank blank
  · exact unmarked_of_isWordChar word

theorem scan_enclosed {q : Char} (quote : Token.isQuote q = true) {body : List Char}
    (enclosed : Enclosed q body) (flag : Bool) (depth : Nat) :
    Piece.scan ⟨some q, flag⟩ depth (body ++ [q]) = [.word depth (body ++ [q])] := by
  induction enclosed generalizing flag with
  | nil => rfl
  | @plain c r other bare _ ih =>
      have step : Quoting.next ⟨some q, flag⟩ c = ⟨some q, c == '\\'⟩ := by
        simp [Quoting.next, other]
      simp only [List.cons_append, Piece.scan, Quoting.inside, Option.isSome_some, if_true, step]
      rw [ih]
      rfl
  | @escaped d r _ ih =>
      have first : Quoting.next ⟨some q, flag⟩ '\\' = ⟨some q, true⟩ := by
        simp [Quoting.next, Token.quote_ne_backslash quote]
      have second : Quoting.next ⟨some q, true⟩ d = ⟨some q, d == '\\'⟩ := by
        simp [Quoting.next]
      simp only [List.cons_append, Piece.scan, Quoting.inside, Option.isSome_some, if_true, first,
        second]
      rw [ih]
      rfl

theorem scan_glued {q : Char} (quote : Token.isQuote q = true) {stem body : List Char}
    (plain : ∀ c ∈ stem, Token.isWordChar c = true) (enclosed : Enclosed q body)
    {start : Quoting} (outside : start.quote = none) (depth : Nat) :
    Piece.scan start depth (stem ++ q :: (body ++ [q])) =
      [.word depth (stem ++ q :: (body ++ [q]))] := by
  have opened : Quoting.next {} q = ⟨some q, false⟩ :=
    congrArg Reading.quoting (Reading.next_quote (s := {}) rfl quote)
  obtain ⟨opening, closing⟩ := ne_paren_of_isQuote quote
  have string : Piece.scan {} depth (q :: (body ++ [q])) = [.word depth (q :: (body ++ [q]))] := by
    rw [Piece.scan, if_neg (by decide), if_neg (by simp [Token.isBlank_of_isQuote quote])]
    simp only [if_neg closing, depthAfter_of_ne opening closing, opened]
    rw [scan_enclosed quote enclosed]
    rfl
  exact Piece.scan_glued plain string outside

theorem upperOf_quote {q : Char} (quote : Token.isQuote q = true) : Text.upperOf q = [q] := by
  apply Text.upperOf_of_not_wordChar
  simp [Token.isWordChar, quote]

namespace QuotedCondition

def text (c : QuotedCondition) : List Char :=
  c.lead ++ (c.stem ++ c.quote :: (c.body ++ [c.quote]))

theorem free (c : QuotedCondition) {keyword : String} (free : Free keyword c.lead)
    (bare : Token.Bare keyword.toList) : Free keyword c.text := by
  have passed := Reading.after_plain (s := {}) rfl c.leading
  have absent : c.quote ∉ keyword.toList := by
    intro member
    exact absurd (bare.plain _ member) (by simp [Token.isWordChar, c.isQuote])
  intro x member
  rw [text, scan_append_of_ends c.parted passed.1 passed.2,
    scan_glued c.isQuote c.plain c.enclosed rfl] at member
  rcases List.mem_append.mp member with h | h
  · exact free x h
  · rw [List.mem_singleton.mp h]
    exact isKeyword_of_mem 0 (c := c.quote) (by simp) (by simp [upperOf_quote c.isQuote]) absent

theorem balanced (c : QuotedCondition) (sound : c.body.getLast? ≠ some '\\') :
    Balanced c.text := by
  have first := Reading.after_plain (s := {}) rfl c.leading
  have second := Reading.after_word first.1 c.plain
  have third := Reading.after_string second.1 c.isQuote c.enclosed
  rw [if_neg sound] at third
  have quote : Text.isBlank c.quote = false := Token.isBlank_of_isQuote c.isQuote
  have whole : Reading.after {} c.text = ⟨⟨none, false⟩, 0⟩ := by
    rw [text, Reading.after_append, Reading.after_append, third, second.2, first.2]
  refine ⟨by simp [text], ?_, by rw [whole]; rfl, by rw [whole]⟩
  rw [Text.trim_eq_self_iff]
  constructor
  · intro d member
    rw [text] at member
    cases before : c.lead with
    | cons e lead =>
        rw [before] at member
        exact c.starts d (before ▸ member)
    | nil =>
        rw [before] at member
        cases glued : c.stem with
        | nil =>
            rw [glued] at member
            obtain rfl : c.quote = d := by simpa using member
            exact quote
        | cons e stem =>
            rw [glued] at member
            obtain rfl : e = d := by simpa using member
            exact (Token.isWordChar_iff.mp (c.plain e (by simp [glued]))).1
  · intro d member
    have ends : c.text = (c.lead ++ (c.stem ++ c.quote :: c.body)) ++ [c.quote] := by simp [text]
    rw [ends, List.getLast?_concat] at member
    obtain rfl : c.quote = d := by simpa using member
    exact quote

theorem operand (c : QuotedCondition) (sound : c.body.getLast? ≠ some '\\') : Operand c.text :=
  ⟨c.balanced sound, c.free c.notAnd bare_and, c.free c.notOr bare_or⟩

end QuotedCondition

/-- Whatever text the tokens of a line can be read from, they and the reading of a clause agree on
what is quoted exactly when no string ends with a backslash. Then AND and OR are keywords for both or
for neither, and the clause is cut just there; conditions whose strings do not end with a backslash
are read back as they are written. -/
theorem quoting_agrees_iff {w : List Char} {ts : List Token} (read : tokenize w = .ok ts) :
    ((∀ i < w.length, TokensQuote ts i ↔ Reading.Quotes {} w i) ↔ NoTrailing ts) ∧
    (NoTrailing ts →
      (∀ l k r, w = l ++ (k ++ r) → Parted l r → Token.Spells "AND" k ∨ Token.Spells "OR" k →
        (Routed ts k l.length ↔ Cut w l k)) ∧
      parseClause w =
        match cuts (Piece.scan {} 0 w) with
        | [] => [[Text.trim w]]
        | gs => gs) ∧
    ∀ groups : List (List QuotedCondition),
      (∀ g ∈ groups, ∀ c ∈ g, c.body.getLast? ≠ some '\\') →
      Writes (groups.map (List.map QuotedCondition.text)) w →
      parseClause w = groups.map (List.map QuotedCondition.text) := by
  have scans := Token.tokenize_eq_ok_iff.mp read
  have agrees := agrees_iff (s := {}) scans rfl
  simp only [Agrees, Nat.zero_add] at agrees
  refine ⟨agrees, ?_, ?_⟩
  · intro sound
    refine ⟨?_, parseClause_eq_cuts (.inl (after_of_scans (s := {}) scans sound rfl).1)⟩
    rintro l k r rfl parted spells
    have bare : Token.Bare k := by
      rcases spells with h | h
      · exact h.bare bare_and
      · exact h.bare bare_or
    rw [routed_iff parted bare scans sound, cut_iff parted bare]
  · intro groups sound writes
    apply parseClause_writes writes
    intro g member t inside
    obtain ⟨h, own, rfl⟩ := List.mem_map.mp member
    obtain ⟨c, part, rfl⟩ := List.mem_map.mp inside
    exact c.operand (sound h own c part)

/-! ## Strings with backslashes -/

/-- Two conditions on the name, each with a string in double quotes. -/
def pair (body other : List Char) : List Char :=
  ['n', 'a', 'm', 'e'] ++ ' ' :: (['='] ++ ' ' :: '"' :: (body ++ '"' :: ' ' ::
    (['O', 'R'] ++ ' ' :: (['n', 'a', 'm', 'e'] ++ ' ' :: (['='] ++ ' ' :: '"' :: (other ++ ['"']))))))

def pairTokens (body other : List Char) : List Token :=
  let next := 7 + body.length + 2 + 1
  [.ofWord ['n', 'a', 'm', 'e'] 0, .ofWord ['='] 5, .ofString body 7, .ofWord ['O', 'R'] next,
    .ofWord ['n', 'a', 'm', 'e'] (next + 3), .ofWord ['='] (next + 8), .ofString other (next + 10)]

theorem tokenize_pair {body other : List Char} (left : Enclosed '"' body)
    (right : Enclosed '"' other) : tokenize (pair body other) = .ok (pairTokens body other) := by
  rw [Token.tokenize_eq_ok_iff]
  have right' : Scans (7 + body.length + 2 + 1) _ _ :=
    .word_blank (w := ['O', 'R']) (c := ' ') (by decide) (by decide)
      (.word_blank (w := ['n', 'a', 'm', 'e']) (c := ' ') (by decide) (by decide)
        (.word_blank (w := ['=']) (c := ' ') (by decide) (by decide)
          (.string (q := '"') (by decide) right (.nil _))))
  exact .word_blank (by decide) (by decide) (.word_blank (by decide) (by decide)
    (.string (by decide) left (.blank (by decide) right')))

theorem enclosed_backslashes : Enclosed '"' ['a', '\\', '\\'] :=
  .plain (by decide) (by decide) (.escaped .nil)

theorem enclosed_backslash_inside : Enclosed '"' ['a', '\\', '"', 'b'] :=
  .plain (by decide) (by decide) (.escaped (.plain (by decide) (by decide) .nil))

theorem enclosed_letter : Enclosed '"' ['b'] :=
  .plain (by decide) (by decide) .nil

def onName (body : List Char) (enclosed : Enclosed '"' body) : QuotedCondition where
  lead := ['n', 'a', 'm', 'e', ' ', '=', ' ']
  stem := []
  quote := '"'
  body := body
  leading := by
    simp only [List.forall_mem_cons]
    refine ⟨.inr ?_, .inr ?_, .inr ?_, .inr ?_, .inl ?_, .inr ?_, .inl ?_, by simp⟩ <;> decide
  starts := by
    rintro _ ⟨⟩
    decide
  parted := by
    rintro _ ⟨⟩
    decide
  notAnd := by decide
  notOr := by decide
  plain := by simp
  isQuote := by decide
  enclosed := enclosed

theorem quoting_agrees_on_pair :
    let w := pair ['a', '\\', '"', 'b'] ['b']
    let ts := pairTokens ['a', '\\', '"', 'b'] ['b']
    tokenize w = .ok ts ∧ (∀ i < w.length, TokensQuote ts i ↔ Reading.Quotes {} w i) ∧
      (Routed ts ['O', 'R'] 14 ↔ Cut w (w.take 14) ['O', 'R']) ∧
      parseClause w = [[(onName _ enclosed_backslash_inside).text], [(onName _ enclosed_letter).text]] := by
  have read := tokenize_pair enclosed_backslash_inside enclosed_letter
  have sound : NoTrailing (pairTokens ['a', '\\', '"', 'b'] ['b']) := by
    simp [NoTrailing, pairTokens, Token.ofWord, Token.ofString]
  have parted : Parted ((pair ['a', '\\', '"', 'b'] ['b']).take 14)
      ((pair ['a', '\\', '"', 'b'] ['b']).drop 16) := by decide
  obtain ⟨agrees, keywords, conditions⟩ := quoting_agrees_iff read
  refine ⟨read, agrees.mpr sound, ?_, ?_⟩
  · exact (keywords sound).1 _ ['O', 'R'] _ rfl parted (.inr (by decide))
  · refine conditions [[onName _ enclosed_backslash_inside], [onName _ enclosed_letter]] ?_ ?_
    · simp [onName]
    · have gap : Text.Gap [' '] := Text.gap_singleton (by decide)
      exact ⟨[(onName _ enclosed_backslash_inside).text, (onName _ enclosed_letter).text],
        .more gap (k := ['O', 'R']) (by decide) gap (.one _),
        .cons (.one _) (.cons (.one _) .nil)⟩

/-- A string that ends with two backslashes is closed for the tokens and stays open for the reading,
so that the OR after it cuts nothing. -/
theorem quoting_disagrees :
    let w := pair ['a', '\\', '\\'] ['b']
    ∃ ts, tokenize w = .ok ts ∧ ¬ (TokensQuote ts 11 ↔ Reading.Quotes {} w 11) ∧
      Routed ts ['O', 'R'] 13 ∧ ¬ Cut w (w.take 13) ['O', 'R'] ∧ parseClause w = [[w]] := by
  refine ⟨pairTokens _ _, tokenize_pair enclosed_backslashes enclosed_letter, ?_, ?_, ?_, ?_⟩
  · intro same
    have quoted : Reading.Quotes {} (pair ['a', '\\', '\\'] ['b']) 11 := by
      constructor <;> decide
    have tokens := same.mpr quoted
    simp [TokensQuote, pairTokens, Token.ofWord, Token.ofString] at tokens
  · exact ⟨(pairTokens ['a', '\\', '\\'] ['b']).take 3, _, rfl, rfl⟩
  · have parted : Parted ((pair ['a', '\\', '\\'] ['b']).take 13)
        ((pair ['a', '\\', '\\'] ['b']).drop 15) := by decide
    intro cut
    have reading := (cut_iff parted (k := ['O', 'R']) (by decide)).mp cut
    exact absurd reading.1 (by decide)
  · decide

end FileQuery.Where
