import FileQuery.Codec.Unicode

/-! Strings as code points and as bytes in UTF-8. A string has no surrogates, so every string can be
written and comes back from what was written. -/
set_option autoImplicit false
namespace FileQuery

namespace Text

theorem isSurrogate_toNat (c : Char) : isSurrogate c.toNat = false := by
  have valid := c.valid
  have same : c.toNat = c.val.toNat := rfl
  simp only [UInt32.isValidChar, Nat.isValidChar] at valid
  rw [isSurrogate, same, Bool.and_eq_false_iff, decide_eq_false_iff_not,
    decide_eq_false_iff_not]
  omega

theorem CodePoints.calm_ofString (s : String) : ∀ n ∈ ofString s, isSurrogate n = false := by
  intro n member
  obtain ⟨c, _, rfl⟩ := List.mem_map.mp member
  exact isSurrogate_toNat c

theorem CodePoints.ofString_append (s t : String) : ofString (s ++ t) = ofString s ++ ofString t := by
  rw [ofString, ofString, ofString, String.toList_append, List.map_append]

theorem CodePoints.map_ofNat_ofString (s : String) : (ofString s).map Char.ofNat = s.toList := by
  rw [ofString, List.map_map]
  exact List.map_id'' (fun c => Char.ofNat_toNat c) _

theorem CodePoints.toString_ofString (s : String) : (ofString s).toString = s := by
  have same : (ofString s).map (fun n => if isSurrogate n then '\uFFFD' else Char.ofNat n) =
      (ofString s).map Char.ofNat := by
    refine List.map_congr_left fun n member => ?_
    rw [calm_ofString s n member, if_neg Bool.false_ne_true]
  rw [CodePoints.toString, same, map_ofNat_ofString, String.ofList_toList]

theorem toNat_lt (c : Char) : c.toNat < 0x110000 := by
  have valid := c.valid
  have same : c.toNat = c.val.toNat := rfl
  simp only [UInt32.isValidChar, Nat.isValidChar] at valid
  omega

/-! Halves of code points beyond the first plane. -/

section Halves
variable {n : Nat}

theorem isHighSurrogate_half (known : n < 0x110000) :
    isHighSurrogate (0xD800 + (n - 0x10000) / 0x400) = true := by
  simp only [isHighSurrogate, Bool.and_eq_true, decide_eq_true_eq]
  omega

theorem isLowSurrogate_half : isLowSurrogate (0xDC00 + (n - 0x10000) % 0x400) = true := by
  simp only [isLowSurrogate, Bool.and_eq_true, decide_eq_true_eq]
  omega

theorem joinSurrogates_halves (beyond : 0x10000 ≤ n) :
    joinSurrogates (0xD800 + (n - 0x10000) / 0x400) (0xDC00 + (n - 0x10000) % 0x400) = n := by
  have joined (high low : Nat) :
    joinSurrogates high low = 0x10000 + (high - 0xD800) * 0x400 + (low - 0xDC00) := rfl
  have same := joined (0xD800 + (n - 0x10000) / 0x400) (0xDC00 + (n - 0x10000) % 0x400)
  omega

end Halves

theorem not_isHighSurrogate (c : Char) : isHighSurrogate c.toNat = false := by
  have whole := isSurrogate_toNat c
  simp only [isSurrogate, isHighSurrogate, Bool.and_eq_false_iff, decide_eq_false_iff_not] at whole ⊢
  omega

end Text

namespace Codec

theorem firstRun?_eq_none_iff {p : Nat → Bool} {text : List Nat} {i : Nat} :
    firstRun? p i text = none ↔ ∀ n ∈ text, p n = false := by
  induction text generalizing i with
  | nil => simp [firstRun?]
  | cons n rest ih =>
      rw [firstRun?]
      cases holds : p n with
      | true => simp [holds]
      | false => simp [holds, ih]

theorem withoutSurrogates_ofString (codec : String) (wholeRun : Bool) (s : String) :
    withoutSurrogates codec wholeRun (Text.CodePoints.ofString s) = .ok s := by
  rw [withoutSurrogates, firstRun?_eq_none_iff.mpr (Text.CodePoints.calm_ofString s)]
  dsimp only
  rw [Text.CodePoints.map_ofNat_ofString, String.ofList_toList]

theorem encodeUtf8_ofString (s : String) :
    encodeUtf8 (Text.CodePoints.ofString s) = .ok s.toUTF8 := by
  rw [encodeUtf8, withoutSurrogates_ofString]
  rfl

theorem decodeUtf8_toUTF8 (s : String) : decodeUtf8 s.toUTF8 = .ok s := by
  have valid : String.fromUTF8? s.toUTF8 = some s := by
    rw [String.fromUTF8?, String.toUTF8_eq_toByteArray, dif_pos s.isValidUTF8]
    rfl
  rw [decodeUtf8, valid]

end Codec

end FileQuery
