import FileQuery.Json.String
import FileQuery.Proofs.Codec.Unicode

/-! How the characters of a string may be spelled: as they are, with an escape of one letter, or with
the hexadecimal digits of the units that they have in UTF-16. Whatever spells a text is read as that
text. -/
set_option autoImplicit false
namespace FileQuery.Json

/-- The hexadecimal digit of a number, in either case. -/
def Digit (n : Nat) (c : Char) : Prop :=
  "0123456789abcdef".toList[n]? = some c ∨ "0123456789ABCDEF".toList[n]? = some c

inductive UnitDigits (n : Nat) : List Char → Prop where
  | mk {a b c d : Char} (first : Digit (n / 4096) a) (second : Digit (n / 256 % 16) b)
      (third : Digit (n / 16 % 16) c) (fourth : Digit (n % 16) d) : UnitDigits n [a, b, c, d]

/-- The characters that an escape of one letter stands for, each with its letter. -/
def letters : List (Char × Char) :=
  [('"', '"'), ('\\', '\\'), ('/', '/'), ('\x08', 'b'), ('\x0c', 'f'), ('\n', 'n'), ('\r', 'r'),
    ('\t', 't')]

/-- What a character may be spelled with between double quotes. -/
inductive Spelling (c : Char) : List Char → Prop where
  | plain (quote : c ≠ '"') (slash : c ≠ '\\') : Spelling c [c]
  | letter {l : Char} (stands : (c, l) ∈ letters) : Spelling c ['\\', l]
  | unit {digits : List Char} (unit : UnitDigits c.toNat digits) : Spelling c ('\\' :: 'u' :: digits)
  | pair {high low : List Char} (beyond : 0x10000 ≤ c.toNat)
      (first : UnitDigits (0xD800 + (c.toNat - 0x10000) / 0x400) high)
      (second : UnitDigits (0xDC00 + (c.toNat - 0x10000) % 0x400) low) :
      Spelling c ('\\' :: 'u' :: (high ++ '\\' :: 'u' :: low))

inductive Spells : List Char → List Char → Prop where
  | nil : Spells [] []
  | cons {c : Char} {s w e : List Char} (first : Spelling c w) (rest : Spells s e) :
      Spells (c :: s) (w ++ e)

/-- The code points that are read with one more in front. -/
def more (n : Nat) : Text.CodePoints × Nat × List Char → Text.CodePoints × Nat × List Char
  | (ns, stop, rest) => (n :: ns, stop, rest)

/-! Digits. -/

theorem hexValue?_of_digit {n : Nat} {c : Char} (digit : Digit n c) : hexValue? c = some n := by
  have lower : ∀ x ∈ "0123456789abcdef".toList.zipIdx, hexValue? x.1 = some x.2 := by decide
  have upper : ∀ x ∈ "0123456789ABCDEF".toList.zipIdx, hexValue? x.1 = some x.2 := by decide
  rcases digit with there | there
  · exact lower (c, n) (List.mk_mem_zipIdx_iff_getElem?.mpr there)
  · exact upper (c, n) (List.mk_mem_zipIdx_iff_getElem?.mpr there)

section Units
variable {n : Nat} {digits t : List Char}

theorem UnitDigits.length (unit : UnitDigits n digits) : digits.length = 4 := by
  cases unit
  rfl

theorem UnitDigits.value_of_mem (unit : UnitDigits n digits) {c : Char} (member : c ∈ digits) :
    ∃ m, hexValue? c = some m := by
  cases unit with
  | mk first second third fourth =>
      simp only [List.mem_cons, List.not_mem_nil, or_false] at member
      rcases member with rfl | rfl | rfl | rfl
      · exact ⟨_, hexValue?_of_digit first⟩
      · exact ⟨_, hexValue?_of_digit second⟩
      · exact ⟨_, hexValue?_of_digit third⟩
      · exact ⟨_, hexValue?_of_digit fourth⟩

theorem hex4?_unit (unit : UnitDigits n digits) (some : t ≠ []) :
    hex4? (digits ++ t) = .some (n, t) := by
  obtain ⟨e, t, rfl⟩ := List.exists_cons_of_ne_nil some
  cases unit with
  | mk first second third fourth =>
      have value : ((n / 4096 * 16 + n / 256 % 16) * 16 + n / 16 % 16) * 16 + n % 16 = n := by omega
      simp only [List.cons_append, List.nil_append, hex4?, hexValue?_of_digit first,
        hexValue?_of_digit second, hexValue?_of_digit third, hexValue?_of_digit fourth]
      exact congrArg (fun m => Option.some (m, e :: t)) value

theorem hexEscape_unit (unit : UnitDigits n digits) (some : t ≠ [])
    (low : Text.isHighSurrogate n = false) : hexEscape (digits ++ t) = .point n 4 := by
  simp only [hexEscape, hex4?_unit unit some, low, Bool.false_eq_true, if_false]

theorem hexEscape_pair {m : Nat} {digits' : List Char} (unit : UnitDigits n digits)
    (unit' : UnitDigits m digits') (some : t ≠ []) (high : Text.isHighSurrogate n = true)
    (low : Text.isLowSurrogate m = true) :
    hexEscape (digits ++ '\\' :: 'u' :: (digits' ++ t)) =
      .point (Text.joinSurrogates n m) 10 := by
  obtain ⟨e, t, rfl⟩ := List.exists_cons_of_ne_nil some
  have second : hex4? (digits' ++ [e]) = .some (m, [e]) := hex4?_unit unit' (by simp)
  rw [hexEscape, hex4?_unit unit (by simp)]
  cases unit' with
  | mk =>
      simp only [List.cons_append, List.nil_append] at second
      simp only [high, low, if_true, List.cons_append, List.nil_append, second]

end Units

/-! Reading. -/

section Scan
variable {strict : Bool} {opened offset : Nat} {c : Char} {t : List Char}

theorem scanString_plain (quote : c ≠ '"') (slash : c ≠ '\\')
    (printed : strict = true → 0x20 ≤ c.toNat) :
    scanString strict opened offset (c :: t) =
      (scanString strict opened (offset + 1) t).map (more c.toNat) := by
  have noControl : ¬ (strict && decide (c.toNat < 0x20)) = true := by simpa using printed
  rw [scanString, if_neg noControl]
  · rcases scanString strict opened (offset + 1) t with f | ⟨ns, stop, rest⟩ <;> rfl
  · rintro rfl
    exact quote rfl
  · rintro rfl
    exact slash rfl

theorem scanString_simple {d : Char} (simple : simpleEscape? c = some d) :
    scanString strict opened offset ('\\' :: c :: t) =
      (scanString strict opened (offset + 2) t).map (more d.toNat) := by
  rw [scanString, simple]
  · rcases scanString strict opened (offset + 2) t with f | ⟨ns, stop, rest⟩ <;> rfl
  · rintro rfl
    cases simple

theorem scanString_escape {n taken : Nat} (escape : hexEscape t = .point n taken) :
    scanString strict opened offset ('\\' :: 'u' :: t) =
      (scanString strict opened (offset + 2 + taken) (t.drop taken)).map (more n) := by
  rw [scanString, escape]
  dsimp only
  rcases scanString strict opened (offset + 2 + taken) (t.drop taken) with f | ⟨ns, stop, rest⟩ <;> rfl

theorem scanString_unit {n : Nat} {digits : List Char} (unit : UnitDigits n digits) (some : t ≠ [])
    (low : Text.isHighSurrogate n = false) :
    scanString strict opened offset ('\\' :: 'u' :: (digits ++ t)) =
      (scanString strict opened (offset + 6) t).map (more n) := by
  rw [scanString_escape (hexEscape_unit unit some low), List.drop_left' unit.length]

theorem scanString_pair {high low : List Char} (beyond : 0x10000 ≤ c.toNat)
    (first : UnitDigits (0xD800 + (c.toNat - 0x10000) / 0x400) high)
    (second : UnitDigits (0xDC00 + (c.toNat - 0x10000) % 0x400) low) (some : t ≠ []) :
    scanString strict opened offset ('\\' :: 'u' :: (high ++ '\\' :: 'u' :: (low ++ t))) =
      (scanString strict opened (offset + 12) t).map (more c.toNat) := by
  have behind : (high ++ '\\' :: 'u' :: (low ++ t)).drop 10 = t := by
    have whole : high ++ '\\' :: 'u' :: (low ++ t) = (high ++ '\\' :: 'u' :: low) ++ t := by simp
    have length : (high ++ '\\' :: 'u' :: low).length = 10 := by
      rw [List.length_append, List.length_cons, List.length_cons, first.length, second.length]
    rw [whole, List.drop_left' length]
  have escape := hexEscape_pair first second some (Text.isHighSurrogate_half (Text.toNat_lt c))
    Text.isLowSurrogate_half
  rw [Text.joinSurrogates_halves beyond] at escape
  rw [scanString_escape escape, behind]

theorem scanString_spelling {w : List Char} (spelling : Spelling c w) (some : t ≠ []) :
    ∃ offset', scanString false opened offset (w ++ t) =
      (scanString false opened offset' t).map (more c.toNat) := by
  have simple : ∀ x ∈ letters, simpleEscape? x.2 = .some x.1 := by decide
  cases spelling with
  | plain quote slash => exact ⟨_, scanString_plain quote slash (by simp)⟩
  | letter stands => exact ⟨_, scanString_simple (simple _ stands)⟩
  | unit unit => exact ⟨_, scanString_unit unit some (Text.not_isHighSurrogate c)⟩
  | @pair high low beyond first second =>
      have same : ('\\' :: 'u' :: (high ++ '\\' :: 'u' :: low)) ++ t =
          '\\' :: 'u' :: (high ++ '\\' :: 'u' :: (low ++ t)) := by simp
      rw [same]
      exact ⟨_, scanString_pair beyond first second some⟩

theorem scanString_spells {s e : List Char} (spells : Spells s e) (opened : Nat) (rest : List Char) :
    ∀ offset, ∃ stop, scanString false opened offset (e ++ '"' :: rest) =
      .ok (s.map Char.toNat, stop, rest) := by
  induction spells with
  | nil => exact fun offset => ⟨offset + 1, by rw [List.nil_append, scanString]; rfl⟩
  | @cons c s w e first _ ih =>
      intro offset
      obtain ⟨offset', begun⟩ :
          ∃ offset', scanString false opened offset (w ++ (e ++ '"' :: rest)) =
            (scanString false opened offset' (e ++ '"' :: rest)).map (more c.toNat) :=
        scanString_spelling first (by simp)
      obtain ⟨stop, read⟩ := ih offset'
      refine ⟨stop, ?_⟩
      rw [List.append_assoc, begun, read]
      rfl

end Scan

end FileQuery.Json
