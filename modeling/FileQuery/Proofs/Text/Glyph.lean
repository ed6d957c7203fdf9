import FileQuery.Proofs.Json.Spelling
import Mathlib.Logic.Basic

/-! # Glyphs of a text

Read from left to right a text falls into glyphs: escapes, and characters that stand for themselves
(`glyphs?`). What it says are the code points of its glyphs (`readEscapes`). The digits, the letters
and the surrogate pairs of escapes are those that the reader of strings knows (`hex4?_eq_some_iff`,
`letter?_eq`, `hexEscape_of_pair`, `hexEscape_cases`). -/
set_option autoImplicit false
namespace FileQuery.Text

/-- What stands at one place of a text: a character for itself, an escape of one letter by the
character it means, or an escape of four hexadecimal digits by their value. -/
inductive Glyph where
  | plain (c : Char)
  | letter (c : Char)
  | unit (n : Nat)
  deriving DecidableEq, Repr

namespace Glyph

def point : Glyph → Nat
  | plain c | letter c => c.toNat
  | unit n => n

def slash : Glyph := letter '\\'

/-- Whether the second glyph may stand right behind the first. -/
def Parted (g h : Glyph) : Prop := ¬ (g = slash ∧ h = plain '"')
  deriving Decidable

end Glyph

/-- The value of a hexadecimal digit, in either case. -/
def digit? (c : Char) : Option Nat := "0123456789abcdef".toList.idxOf? c.toLower

def unit? (digits : List Char) : Option Nat :=
  digits.foldlM (fun n c => (digit? c).map (n * 16 + ·)) 0

def letter? (l : Char) : Option Char := (Json.letters.find? (·.2 == l)).map (·.1)

/-- The glyphs of a text, if every backslash begins an escape. -/
def glyphs? : List Char → Option (List Glyph)
  | [] => some []
  | '\\' :: 'u' :: a :: b :: c :: d :: r =>
    (unit? [a, b, c, d]).bind fun n => (glyphs? r).map (.unit n :: ·)
  | '\\' :: l :: r => (letter? l).bind fun c => (glyphs? r).map (.letter c :: ·)
  | ['\\'] => none
  | c :: r => (glyphs? r).map (.plain c :: ·)

/-- The code points of glyphs: the units of a surrogate pair are one together. -/
def pointsOf : List Glyph → CodePoints
  | .unit high :: .unit low :: gs =>
    if isHighSurrogate high && isLowSurrogate low then joinSurrogates high low :: pointsOf gs
    else high :: pointsOf (.unit low :: gs)
  | g :: gs => g.point :: pointsOf gs
  | [] => []

/-- The text that escapes spell, read from left to right. -/
def readEscapes (s : List Char) : Option CodePoints := (glyphs? s).map pointsOf

theorem glyphs?_unit {a b c d : Char} {n : Nat} (number : unit? [a, b, c, d] = some n)
    (r : List Char) :
    glyphs? ('\\' :: 'u' :: a :: b :: c :: d :: r) = (glyphs? r).map (.unit n :: ·) := by
  rw [glyphs?, number, Option.bind_some]

theorem of_glyphs?_eq_unit {s : List Char} {m : Nat} {gs : List Glyph}
    (read : glyphs? s = some (.unit m :: gs)) :
    ∃ a b c d r, s = '\\' :: 'u' :: a :: b :: c :: d :: r ∧ unit? [a, b, c, d] = some m := by
  revert read
  fun_cases glyphs? s with
  | case2 a b c d r =>
      intro read
      obtain ⟨n, number, rest⟩ := Option.bind_eq_some_iff.mp read
      obtain ⟨hs, -, same⟩ := Option.map_eq_some_iff.mp rest
      cases same
      exact ⟨a, b, c, d, r, rfl, number⟩
  | _ => simp [Option.bind_eq_some_iff]

/-! ## Letters and digits -/

theorem digit?_of_small {c : Char} (small : c.toNat < 128) : digit? c = Json.hexValue? c := by
  have all : ∀ n < 128, digit? (Char.ofNat n) = Json.hexValue? (Char.ofNat n) := by decide
  have same := all c.toNat small
  rwa [Char.ofNat_toNat] at same

theorem digit?_eq (c : Char) : digit? c = Json.hexValue? c := by
  by_cases small : c.toNat < 128
  · exact digit?_of_small small
  · -- neither table goes beyond ASCII
    have beyond (d : Char) (low : d.toNat < 128) : ¬ c ≤ d := by
      rw [Char.le_def, UInt32.le_iff_toNat_le]
      exact fun le => small (Nat.lt_of_le_of_lt le low)
    have other : c ∉ "0123456789abcdef".toList := by
      intro member
      have low : "0123456789abcdef".toList.all (fun d => decide (d.toNat < 128)) = true := by
        decide
      exact small (of_decide_eq_true (List.all_eq_true.mp low c member))
    have same : c.toLower = c := by
      have upper : ¬ (c.val ≥ 'A'.val ∧ c.val ≤ 'Z'.val) := fun range =>
        beyond 'Z' (by decide) range.2
      exact dif_neg upper
    rw [digit?, same, List.idxOf?_eq_none_iff.mpr other, Json.hexValue?,
      if_neg fun range => beyond '9' (by decide) range.2,
      if_neg fun range => beyond 'f' (by decide) range.2,
      if_neg fun range => beyond 'F' (by decide) range.2]

theorem letter?_eq (l : Char) : letter? l = Json.simpleEscape? l := by
  rw [Json.simpleEscape?.eq_def]
  split
  case h_9 quote slash solidus back feed line return' tab =>
    have none : Json.letters.find? (·.2 == l) = none := by
      simp [Json.letters, Ne.symm quote, Ne.symm slash, Ne.symm solidus, Ne.symm back,
        Ne.symm feed, Ne.symm line, Ne.symm return', Ne.symm tab]
    rw [letter?, none]
    rfl
  all_goals rfl

theorem mem_letters_of_letter? {l c : Char} (stands : letter? l = some c) : (c, l) ∈ Json.letters := by
  obtain ⟨x, found, rfl⟩ := Option.map_eq_some_iff.mp stands
  have same : x.2 = l := by simpa using List.find?_some found
  exact same ▸ List.mem_of_find?_eq_some found

theorem ne_of_digit? {c : Char} {n : Nat} (digit : digit? c = some n) : c ≠ '"' ∧ c ≠ '\\' := by
  have quote : digit? '"' = none := by decide
  have slash : digit? '\\' = none := by decide
  constructor
  · rintro rfl
    rw [quote] at digit
    cases digit
  · rintro rfl
    rw [slash] at digit
    cases digit

/-! ## Escapes of digits -/

theorem unit?_eq_some_iff {a b c d : Char} {n : Nat} : unit? [a, b, c, d] = some n ↔
    ∃ i j k l, digit? a = some i ∧ digit? b = some j ∧ digit? c = some k ∧ digit? d = some l ∧
      ((i * 16 + j) * 16 + k) * 16 + l = n := by
  simp [unit?, Option.bind_eq_some_iff]

theorem hex4?_eq_some_iff {s t : List Char} {n : Nat} : Json.hex4? s = some (n, t) ↔
    ∃ a b c d, s = a :: b :: c :: d :: t ∧ unit? [a, b, c, d] = some n ∧ t ≠ [] := by
  simp only [unit?_eq_some_iff, digit?_eq]
  constructor
  · intro read
    rw [Json.hex4?.eq_def] at read
    split at read
    · next a b c d e r =>
        simp only [Option.bind_eq_bind, Option.bind_eq_some_iff, Option.pure_def, Option.some.injEq,
          Prod.mk.injEq] at read
        obtain ⟨i, first, j, second, k, third, l, fourth, value, rfl⟩ := read
        exact ⟨a, b, c, d, rfl, ⟨i, j, k, l, first, second, third, fourth, value⟩, by simp⟩
    · cases read
  · rintro ⟨a, b, c, d, rfl, ⟨i, j, k, l, first, second, third, fourth, rfl⟩, more⟩
    obtain ⟨e, r, rfl⟩ := List.exists_cons_of_ne_nil more
    simp [Json.hex4?, first, second, third, fourth]

theorem hex4?_four (a b c d : Char) {t : List Char} (more : t ≠ []) :
    Json.hex4? (a :: b :: c :: d :: t) = (unit? [a, b, c, d]).map (·, t) := by
  ext ⟨n, t'⟩
  rw [hex4?_eq_some_iff]
  constructor
  · rintro ⟨_, _, _, _, same, number, -⟩
    cases same
    rw [number, Option.map_some]
  · intro read
    obtain ⟨m, number, same⟩ := Option.map_eq_some_iff.mp read
    cases same
    exact ⟨a, b, c, d, rfl, number, more⟩

theorem hexEscape_of_pair {s t t' : List Char} {n m : Nat}
    (first : Json.hex4? s = some (n, '\\' :: 'u' :: t)) (second : Json.hex4? t = some (m, t'))
    (pair : (isHighSurrogate n && isLowSurrogate m) = true) :
    Json.hexEscape s = .point (joinSurrogates n m) 10 := by
  obtain ⟨high, low⟩ := Bool.and_eq_true_iff.mp pair
  obtain ⟨a, b, c, d, rfl, number, more⟩ := hex4?_eq_some_iff.mp second
  obtain ⟨e, r, rfl⟩ := List.exists_cons_of_ne_nil more
  have read := hex4?_four a b c d (List.cons_ne_nil e [])
  rw [number, Option.map_some] at read
  simp only [Json.hexEscape, first, high, if_true, read, low]

theorem hexEscape_cases {s r : List Char} {n : Nat} (read : Json.hex4? s = some (n, r))
    (alone : ∀ t m t', r = '\\' :: 'u' :: t → Json.hex4? t = some (m, t') →
      (isHighSurrogate n && isLowSurrogate m) = false) :
    Json.hexEscape s = .point n 4 ∨
      Json.hexEscape s = .invalidSecond ∧ ∃ t, r = '\\' :: 'u' :: t ∧ Json.hex4? t = none := by
  cases high : isHighSurrogate n with
  | false => exact .inl (by simp [Json.hexEscape, read, high])
  | true =>
      simp only [Json.hexEscape, read, high, if_true]
      split
      · next a b c d e r' =>
          -- four digits are read alike whatever stands behind the character after them
          rw [hex4?_four a b c d (List.cons_ne_nil e [])]
          have behind := hex4?_four a b c d (List.cons_ne_nil e r')
          cases number : unit? [a, b, c, d] with
          | none =>
              rw [number, Option.map_none] at behind
              exact .inr ⟨rfl, _, rfl, behind⟩
          | some m =>
              rw [number, Option.map_some] at behind
              have low := alone _ m _ rfl behind
              rw [high, Bool.true_and] at low
              exact .inl (by simp [low])
      · exact .inl rfl

end FileQuery.Text
