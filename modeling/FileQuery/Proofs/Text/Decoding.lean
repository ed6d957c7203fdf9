import FileQuery.Proofs.Text.Glyph
import FileQuery.Text.Escape
import Mathlib.Data.List.Chain
import Mathlib.Data.List.TakeWhile

/-! # Decoding the escapes of a text

The escapes of a text are decoded by way of a string literal, in which every quote is escaped that has
no backslash right before it. What is decoded is what the glyphs of the text say, unless a quote stands
right behind an escaped backslash (`decodeEscapes_agrees_iff`): the guard looks back by one character
only, takes such a quote for an escaped one, and the literal ends there. -/
set_option autoImplicit false
namespace FileQuery.Text

/-! ## The literal of a text -/

/-- The rest of the literal for the rest of a text, which may stand right behind a backslash. -/
def literalRest (behind : Bool) (s : List Char) : List Char := guardQuotes behind s ++ ['"']

section Literal
variable (behind : Bool)

theorem literalRest_ne_nil (s : List Char) : literalRest behind s ≠ [] := by
  simp [literalRest]

theorem literalRest_plain {c : Char} (other : c ≠ '"') (bare : c ≠ '\\') (r : List Char) :
    literalRest behind (c :: r) = c :: literalRest false r := by
  have after : (c == '\\') = false := by simpa using bare
  simp [literalRest, guardQuotes, other, after]

theorem literalRest_quote (r : List Char) :
    literalRest false ('"' :: r) = '\\' :: '"' :: literalRest false r := by
  simp [literalRest, guardQuotes]

theorem literalRest_bare_quote (r : List Char) :
    literalRest true ('"' :: r) = '"' :: literalRest false r := by
  simp [literalRest, guardQuotes]

theorem literalRest_escape (l : Char) (r : List Char) :
    literalRest behind ('\\' :: l :: r) = '\\' :: l :: literalRest (l == '\\') r := by
  by_cases quote : l = '"' <;> simp [literalRest, guardQuotes, quote]

theorem literalRest_eq_digit {s t : List Char} {c : Char} {n : Nat} (digit : digit? c = some n)
    (same : literalRest behind s = c :: t) :
    ∃ r, s = c :: r ∧ t = literalRest false r := by
  obtain ⟨quote, slash⟩ := ne_of_digit? digit
  cases s with
  | nil =>
      have first : '"' = c := (List.cons.inj same).1
      exact absurd first.symm quote
  | cons d r =>
      by_cases bare : d = '"'
      · subst bare
        cases behind with
        | false =>
            rw [literalRest_quote] at same
            exact absurd (List.cons.inj same).1.symm slash
        | true =>
            rw [literalRest_bare_quote] at same
            exact absurd (List.cons.inj same).1.symm quote
      · have first : d = c := by
          simp only [literalRest, guardQuotes, bare] at same
          exact (List.cons.inj same).1
        subst first
        rw [literalRest_plain behind quote slash] at same
        exact ⟨r, rfl, (List.cons.inj same).2.symm⟩

end Literal

theorem literalRest_unit {a b c d : Char} {n : Nat} (number : unit? [a, b, c, d] = some n)
    (r : List Char) :
    literalRest false (a :: b :: c :: d :: r) = [a, b, c, d] ++ literalRest false r := by
  obtain ⟨i, j, k, l, first, second, third, fourth, -⟩ := unit?_eq_some_iff.mp number
  have plain {x : Char} {m : Nat} (digit : digit? x = some m) (t : List Char) :
      literalRest false (x :: t) = x :: literalRest false t :=
    literalRest_plain false (ne_of_digit? digit).1 (ne_of_digit? digit).2 t
  rw [plain first, plain second, plain third, plain fourth]
  rfl

/-- The digits of an escape are read from the literal as they are read from the text. -/
theorem hex4?_literalRest {s t : List Char} {n : Nat} :
    Json.hex4? (literalRest false s) = some (n, t) ↔
      ∃ a b c d r, s = a :: b :: c :: d :: r ∧ unit? [a, b, c, d] = some n ∧
        t = literalRest false r := by
  rw [hex4?_eq_some_iff]
  constructor
  · rintro ⟨a, b, c, d, same, number, more⟩
    obtain ⟨i, j, k, l, first, second, third, fourth, -⟩ := unit?_eq_some_iff.mp number
    obtain ⟨_, rfl, after⟩ := literalRest_eq_digit false first same
    obtain ⟨_, rfl, after'⟩ := literalRest_eq_digit false second after.symm
    obtain ⟨_, rfl, after''⟩ := literalRest_eq_digit false third after'.symm
    obtain ⟨r, rfl, rest⟩ := literalRest_eq_digit false fourth after''.symm
    exact ⟨a, b, c, d, r, rfl, number, rest⟩
  · rintro ⟨a, b, c, d, r, rfl, number, rfl⟩
    exact ⟨a, b, c, d, literalRest_unit number r, number, literalRest_ne_nil false r⟩

theorem literalRest_eq_mark {s t : List Char} (same : literalRest false s = '\\' :: 'u' :: t) :
    ∃ r, s = '\\' :: 'u' :: r ∧ t = literalRest false r := by
  match s with
  | [] => cases same
  | [c] =>
      by_cases slash : c = '\\'
      · subst slash
        simp [literalRest, guardQuotes] at same
      · by_cases quote : c = '"'
        · subst quote
          simp [literalRest, guardQuotes] at same
        · rw [literalRest_plain false quote slash] at same
          exact absurd (List.cons.inj same).1 slash
  | c :: l :: r =>
      by_cases slash : c = '\\'
      · subst slash
        rw [literalRest_escape] at same
        obtain ⟨rfl, rest⟩ := List.cons.inj (List.cons.inj same).2
        exact ⟨r, rfl, rest.symm⟩
      · by_cases quote : c = '"'
        · subst quote
          rw [literalRest_quote] at same
          simp at same
        · rw [literalRest_plain false quote slash] at same
          exact absurd (List.cons.inj same).1 slash

/-! ## Reading the literal -/

/-- The code points that are read, if the literal ends where it should. -/
def whole : Except Json.Fault (CodePoints × Nat × List Char) → Option CodePoints
  | .ok (points, _, rest) => if (rest.dropWhile isJsonBlank).isEmpty then some points else none
  | .error _ => none

theorem toOption_decodeEscapes_eq_whole (s : List Char) :
    (decodeEscapes s).toOption = whole (Json.scanString false 0 1 (literalRest false s)) := by
  have start : (literalOf s).tail = literalRest false s := rfl
  rw [decodeEscapes, start]
  rcases Json.scanString false 0 1 (literalRest false s) with fault | ⟨points, stop, rest⟩
  · rfl
  · simp only [bind, Except.bind, whole]
    split <;> rfl

theorem whole_more (n : Nat) (x : Except Json.Fault (CodePoints × Nat × List Char)) :
    whole (x.map (Json.more n)) = (whole x).map (n :: ·) := by
  rcases x with fault | ⟨points, stop, rest⟩
  · rfl
  · simp only [Except.map, Json.more, whole]
    split <;> rfl

theorem whole_early (points : CodePoints) (stop : Nat) (s : List Char) :
    whole (.ok (points, stop, literalRest false s)) = none := by
  have quote : isJsonBlank '"' = false := by decide
  have left : (literalRest false s).dropWhile isJsonBlank ≠ [] := by
    intro none
    have all := List.dropWhile_eq_nil_iff.mp none '"' (by simp [literalRest])
    rw [quote] at all
    cases all
  simp only [whole]
  rw [if_neg (by simpa using left)]

/-! ## Glyph by glyph -/

/-- What is decoded of the rest of a literal, from any offset. -/
def decodedRest (behind : Bool) (s : List Char) (offset : Nat) : Option CodePoints :=
  whole (Json.scanString false 0 offset (literalRest behind s))

section Steps
variable (behind : Bool) (r : List Char) (k : Nat)

theorem decodedRest_nil : decodedRest behind [] k = some [] := by
  rw [decodedRest, literalRest, guardQuotes, List.nil_append, Json.scanString]
  rfl

theorem decodedRest_plain {c : Char} (other : c ≠ '"') (bare : c ≠ '\\') :
    decodedRest behind (c :: r) k = (decodedRest false r (k + 1)).map (c.toNat :: ·) := by
  rw [decodedRest, literalRest_plain behind other bare, Json.scanString_plain other bare (by simp),
    whole_more, decodedRest]

theorem decodedRest_quote :
    decodedRest false ('"' :: r) k = (decodedRest false r (k + 2)).map ('"'.toNat :: ·) := by
  rw [decodedRest, literalRest_quote, Json.scanString_simple rfl, whole_more, decodedRest]

theorem decodedRest_bare_quote : decodedRest true ('"' :: r) k = none := by
  rw [decodedRest, literalRest_bare_quote, Json.scanString]
  exact whole_early [] (k + 1) r

theorem decodedRest_slash : decodedRest behind ['\\'] k = none := by
  have literal : literalRest behind ['\\'] = ['\\', '"'] := by
    simp [literalRest, guardQuotes]
  rw [decodedRest, literal, Json.scanString_simple rfl, whole_more, Json.scanString]
  rfl

theorem decodedRest_letter {l c : Char} (stands : letter? l = some c) :
    decodedRest behind ('\\' :: l :: r) k =
      (decodedRest (l == '\\') r (k + 2)).map (c.toNat :: ·) := by
  rw [letter?_eq] at stands
  rw [decodedRest, literalRest_escape, Json.scanString_simple stands, whole_more, decodedRest]

theorem decodedRest_no_letter {l : Char} (none : letter? l = none) (other : l ≠ 'u') :
    decodedRest behind ('\\' :: l :: r) k = .none := by
  rw [letter?_eq] at none
  rw [decodedRest, literalRest_escape, Json.scanString]
  · rw [none]
    rfl
  · exact other

theorem decodedRest_no_unit (none : Json.hex4? (literalRest false r) = none) :
    decodedRest behind ('\\' :: 'u' :: r) k = .none := by
  have escape : Json.hexEscape (literalRest false r) = .invalid := by
    rw [Json.hexEscape, none]
  rw [decodedRest, literalRest_escape, Json.scanString]
  rw [show ('u' == '\\') = false from rfl, escape]
  rfl

/-- Behind the digits of an escape the literal goes on with the rest of the text. -/
theorem decodedRest_unit {s rest t : List Char} {n taken : Nat}
    (escape : Json.hexEscape (literalRest false s) = .point n taken)
    (shape : literalRest false s = t ++ literalRest false rest) (length : t.length = taken) :
    decodedRest behind ('\\' :: 'u' :: s) k =
      (decodedRest false rest (k + 2 + taken)).map (n :: ·) := by
  rw [decodedRest, literalRest_escape, show ('u' == '\\') = false from rfl,
    Json.scanString_escape escape, whole_more, shape, List.drop_left' length, decodedRest]

end Steps

/-- What is decoded of glyphs behind another one. -/
def decodedGlyphs (g : Glyph) (gs : List Glyph) : Option CodePoints :=
  if (g :: gs).IsChain Glyph.Parted then some (pointsOf gs) else none

section Glyphs
variable {g h : Glyph}

theorem decodedGlyphs_nil (g : Glyph) : decodedGlyphs g [] = some [] :=
  if_pos (List.isChain_singleton g)

theorem decodedGlyphs_cons (parted : g.Parted h) {gs : List Glyph}
    (alone : pointsOf (h :: gs) = h.point :: pointsOf gs) :
    decodedGlyphs g (h :: gs) = (decodedGlyphs h gs).map (h.point :: ·) := by
  simp only [decodedGlyphs, List.isChain_cons_cons, parted, true_and, alone]
  split <;> rfl

theorem decodedGlyphs_of_not_parted (close : ¬ g.Parted h) (gs : List Glyph) :
    decodedGlyphs g (h :: gs) = none := by
  simp [decodedGlyphs, close]

theorem parted_of_ne (other : h ≠ .plain '"') : g.Parted h := fun both => other both.2

theorem bind_decodedGlyphs (parted : g.Parted h) {gs : Option (List Glyph)}
    (alone : ∀ hs ∈ gs, pointsOf (h :: hs) = h.point :: pointsOf hs) :
    (gs.map (h :: ·)).bind (decodedGlyphs g) =
      (gs.bind (decodedGlyphs h)).map (h.point :: ·) := by
  cases gs with
  | none => rfl
  | some hs => exact decodedGlyphs_cons parted (alone hs rfl)

theorem bind_decodedGlyphs_pair {n m : Nat} (pair : (isHighSurrogate n && isLowSurrogate m) = true)
    (gs : Option (List Glyph)) :
    (gs.map fun hs => .unit n :: .unit m :: hs).bind (decodedGlyphs g) =
      (gs.bind (decodedGlyphs (.unit m))).map (joinSurrogates n m :: ·) := by
  cases gs with
  | none => rfl
  | some hs =>
      have free (x : Glyph) (i : Nat) : x.Parted (.unit i) := parted_of_ne (by simp)
      simp only [Option.map_some, Option.bind_some, decodedGlyphs, List.isChain_cons_cons, free,
        true_and, pointsOf, pair, if_true]
      split <;> rfl

end Glyphs

/-- Whether the rest of a literal is decoded to what its glyphs say, behind any glyph. -/
def Decoded (s : List Char) : Prop := ∀ (g : Glyph) (k : Nat),
  decodedRest (decide (g = .slash)) s k = (glyphs? s).bind (decodedGlyphs g)

theorem decodedRest_unit_eq {a b c d : Char} {n : Nat} (number : unit? [a, b, c, d] = some n)
    {r : List Char} (rest : ∀ t, t.length ≤ r.length → Decoded t) (g : Glyph) (k : Nat) :
    decodedRest (decide (g = .slash)) ('\\' :: 'u' :: a :: b :: c :: d :: r) k =
      ((glyphs? r).map (.unit n :: ·)).bind (decodedGlyphs g) := by
  have read : Json.hex4? (literalRest false (a :: b :: c :: d :: r)) =
      some (n, literalRest false r) := hex4?_literalRest.mpr ⟨a, b, c, d, r, rfl, number, rfl⟩
  have parted : g.Parted (.unit n) := parted_of_ne (by simp)
  by_cases pair : ∃ t m t', literalRest false r = '\\' :: 'u' :: t ∧ Json.hex4? t = some (m, t') ∧
      (isHighSurrogate n && isLowSurrogate m) = true
  · obtain ⟨t, m, t', mark, second, pair⟩ := pair
    obtain ⟨t, rfl, rfl⟩ := literalRest_eq_mark mark
    obtain ⟨a', b', c', d', r, rfl, number', rfl⟩ := hex4?_literalRest.mp second
    rw [mark] at read
    have shape : literalRest false
        (a :: b :: c :: d :: '\\' :: 'u' :: a' :: b' :: c' :: d' :: r) =
          [a, b, c, d, '\\', 'u', a', b', c', d'] ++ literalRest false r := by
      rw [literalRest_unit number, literalRest_escape, show ('u' == '\\') = false from rfl,
        literalRest_unit number']
      rfl
    have behind := rest r (by simp only [List.length_cons]; omega) (.unit m) (k + 2 + 10)
    rw [decodedRest_unit _ _ (hexEscape_of_pair read second pair) shape rfl, glyphs?_unit number',
      Option.map_map]
    exact (congrArg _ behind).trans (bind_decodedGlyphs_pair pair (glyphs? r)).symm
  · have alone : ∀ gs ∈ glyphs? r, pointsOf (.unit n :: gs) = n :: pointsOf gs := by
      intro gs member
      rw [pointsOf.eq_def]
      split
      · next high low hs same =>
          cases same
          obtain ⟨a', b', c', d', r, rfl, number'⟩ := of_glyphs?_eq_unit member
          have second := hex4?_literalRest.mpr ⟨a', b', c', d', r, rfl, number', rfl⟩
          exact if_neg fun joined =>
            pair ⟨_, low, _, literalRest_escape false 'u' _, second, joined⟩
      · next h hs other same =>
          cases same
          rfl
      · next same => cases same
    have behind := rest r (Nat.le_refl _) (.unit n) (k + 2 + 4)
    have shape := literalRest_unit number r
    rw [bind_decodedGlyphs parted alone, ← behind]
    rcases hexEscape_cases read fun t m t' mark second =>
      Bool.eq_false_iff.mpr fun joined => pair ⟨t, m, t', mark, second, joined⟩ with
      escape | ⟨escape, t, mark, none⟩
    · exact decodedRest_unit _ _ escape shape rfl
    · obtain ⟨t, rfl, rfl⟩ := literalRest_eq_mark mark
      rw [show decide (Glyph.unit n = .slash) = false from rfl, decodedRest_no_unit _ _ _ none,
        decodedRest, literalRest_escape, Json.scanString, show ('u' == '\\') = false from rfl, escape]
      rfl

theorem decodedRest_letter_eq {l c : Char} (stands : letter? l = some c) {r : List Char}
    (rest : Decoded r) (g : Glyph) (k : Nat) :
    decodedRest (decide (g = .slash)) ('\\' :: l :: r) k =
      ((glyphs? r).map (.letter c :: ·)).bind (decodedGlyphs g) := by
  have slashes : ∀ x ∈ Json.letters, x.1 = '\\' ↔ x.2 = '\\' := by decide
  have behind : decide (Glyph.letter c = .slash) = (l == '\\') := by
    have same := slashes _ (mem_letters_of_letter? stands)
    simp [Glyph.slash, beq_eq_decide, same]
  rw [bind_decodedGlyphs (parted_of_ne (by simp)) fun _ _ => rfl, ← rest (.letter c) (k + 2), behind]
  exact decodedRest_letter _ r k stands

theorem decodedRest_quote_eq {r : List Char} (rest : Decoded r) (g : Glyph) (k : Nat) :
    decodedRest (decide (g = .slash)) ('"' :: r) k =
      ((glyphs? r).map (.plain '"' :: ·)).bind (decodedGlyphs g) := by
  by_cases behind : g = .slash
  · subst behind
    have close : ¬ Glyph.slash.Parted (.plain '"') := by decide
    cases glyphs? r with
    | none => exact decodedRest_bare_quote r k
    | some gs => exact (decodedRest_bare_quote r k).trans (decodedGlyphs_of_not_parted close gs).symm
  · have parted : g.Parted (.plain '"') := fun both => behind both.1
    rw [bind_decodedGlyphs parted fun _ _ => rfl, ← rest (.plain '"') (k + 2), decide_eq_false behind]
    exact decodedRest_quote r k

/-- Any other character that stands for itself, with what follows it read already. -/
theorem decodedRest_plain_eq {c : Char} (quote : c ≠ '"') (bare : c ≠ '\\') {r : List Char}
    (rest : Decoded r) (g : Glyph) (k : Nat) :
    decodedRest (decide (g = .slash)) (c :: r) k =
      ((glyphs? r).map (.plain c :: ·)).bind (decodedGlyphs g) := by
  have parted : g.Parted (.plain c) := parted_of_ne (by simpa using quote)
  rw [bind_decodedGlyphs parted fun _ _ => rfl, ← rest (.plain c) (k + 1)]
  exact decodedRest_plain _ r k quote bare

/-- The rest of a literal is decoded to what its glyphs say. The induction is on the length of the
text, since a surrogate pair takes two glyphs off at once. -/
theorem decoded (s : List Char) : Decoded s := by
  induction length : s.length using Nat.strong_induction_on generalizing s with
  | _ length ih =>
    intro g k
    have below (r : List Char) (less : r.length < s.length) : Decoded r :=
      ih r.length (length ▸ less) r rfl
    fun_cases glyphs? s with
    | case1 => exact (decodedRest_nil _ k).trans (decodedGlyphs_nil g).symm
    | case2 a b c d r =>
        cases number : unit? [a, b, c, d] with
        | none =>
            refine decodedRest_no_unit _ _ _ (Option.eq_none_iff_forall_ne_some.mpr ?_)
            rintro ⟨n, t⟩ read
            obtain ⟨_, _, _, _, _, same, number', -⟩ := hex4?_literalRest.mp read
            cases same
            rw [number] at number'
            cases number'
        | some n =>
            refine decodedRest_unit_eq number (fun t short => below t ?_) g k
            simp only [List.length_cons]
            omega
    | case3 l r short =>
        cases stands : letter? l with
        | none =>
            by_cases mark : l = 'u'
            · subst mark
              refine decodedRest_no_unit _ _ _ (Option.eq_none_iff_forall_ne_some.mpr ?_)
              rintro ⟨n, t⟩ read
              obtain ⟨a, b, c, d, r', same, -⟩ := hex4?_literalRest.mp read
              exact short a b c d r' rfl same
            · exact decodedRest_no_letter _ _ _ stands mark
        | some c =>
            refine decodedRest_letter_eq stands (below r ?_) g k
            simp only [List.length_cons]
            omega
    | case4 => exact decodedRest_slash _ k
    | case5 c r unit letter slash =>
        have rest := below r (by simp)
        have bare : c ≠ '\\' := by
          intro same
          cases r with
          | nil => exact slash same rfl
          | cons l r => exact letter l r same rfl
        by_cases quote : c = '"'
        · exact quote ▸ decodedRest_quote_eq rest g k
        · exact decodedRest_plain_eq quote bare rest g k

/-! ## Decoding a text -/

/-- The escapes of a text are decoded if it falls into glyphs, none of which is a quote right behind
an escaped backslash. -/
theorem toOption_decodeEscapes (s : List Char) :
    (decodeEscapes s).toOption =
      (glyphs? s).bind fun gs => if gs.IsChain Glyph.Parted then some (pointsOf gs) else none := by
  have free (h : Glyph) : Glyph.Parted (.unit 0) h := fun both => by cases both.1
  have start : ∀ gs, decodedGlyphs (.unit 0) gs =
      if gs.IsChain Glyph.Parted then some (pointsOf gs) else none := by
    intro gs
    simp only [decodedGlyphs, List.isChain_cons, free, implies_true, true_and]
  rw [toOption_decodeEscapes_eq_whole]
  exact (decoded s (.unit 0) 1).trans (congrArg _ (funext start))

/-- Decoding agrees with the reading from left to right, in what it decodes and in what it refuses,
exactly when no quote stands right behind an escaped backslash. -/
theorem decodeEscapes_agrees_iff (s : List Char) :
    (decodeEscapes s).toOption = readEscapes s ↔ ∀ gs ∈ glyphs? s, gs.IsChain Glyph.Parted := by
  rw [toOption_decodeEscapes, readEscapes]
  cases glyphs? s with
  | none => simp
  | some gs =>
      by_cases parted : gs.IsChain Glyph.Parted <;> simp [parted]

/-- A backslash, escaped, and a quote: the text is refused, although each of its escapes is one. -/
theorem escaped_backslash_before_quote :
    readEscapes ['a', '\\', '\\', '"', 'b'] = some [97, 92, 34, 98] ∧
      (decodeEscapes ['a', '\\', '\\', '"', 'b']).toOption = none := by
  rw [toOption_decodeEscapes]
  decide

end FileQuery.Text
