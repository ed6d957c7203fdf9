import FileQuery.Codec.Basic
import FileQuery.Proofs.Codec.Unicode
import Mathlib.Algebra.Group.Nat.Defs

/-! Every encoding reads back what it has written, as one text if it was written in parts. -/
set_option autoImplicit false
namespace FileQuery.Codec

open Text (CodePoints)

/-! Bytes as a list. -/

theorem toList_loop (b : ByteArray) (i : Nat) (r : List UInt8) :
    ByteArray.toList.loop b i r = r.reverse ++ b.data.toList.drop i := by
  fun_induction ByteArray.toList.loop b i r with
  | case1 i r inside ih =>
      have stands : i < b.data.toList.length := by simpa using inside
      have step : b.data.toList.drop i = b.get! i :: b.data.toList.drop (i + 1) := by
        rw [List.drop_eq_getElem_cons stands, Array.getElem_toList]
        exact congrArg (· :: _) (getElem!_pos b.data i inside).symm
      rw [ih, step, List.reverse_cons, List.append_assoc, List.singleton_append]
  | case2 i r outside =>
      rw [List.drop_eq_nil_of_le (by simpa using outside), List.append_nil]

theorem toList_eq_data (b : ByteArray) : b.toList = b.data.toList := by
  rw [ByteArray.toList, toList_loop, List.reverse_nil, List.nil_append, List.drop_zero]

theorem toList_toByteArray (bytes : List UInt8) : bytes.toByteArray.toList = bytes := by
  rw [toList_eq_data, List.toList_data_toByteArray]

theorem toList_toByteArray_append (bytes : List UInt8) (b : ByteArray) :
    (bytes.toByteArray ++ b).toList = bytes ++ b.toList := by
  rw [toList_eq_data, toList_eq_data, ByteArray.data_append, Array.toList_append,
    List.toList_data_toByteArray]

theorem toByteArray_toList (b : ByteArray) : b.toList.toByteArray = b := by
  refine ByteArray.ext ?_
  rw [toList_eq_data, List.data_toByteArray, Array.toArray_toList]

/-! One byte a character. -/

theorem ofNat_byte {c : Char} (small : c.toNat < 256) :
    Char.ofNat (UInt8.ofNat c.toNat).toNat = c := by
  rw [UInt8.toNat_ofNat_of_lt' small, Char.ofNat_toNat]

/-- What refuses the code points that hold a property is done with all others. -/
theorem refused_eq_ok_iff {α : Type} {p : Nat → Bool} {s : CodePoints} {x y : α}
    {fault : Nat → Nat → Nat → EncodeFault} :
    (match firstRun? p 0 s with
      | some (i, n, q) => .error (fault i n q)
      | none => .ok x : Except EncodeFault α) = .ok y ↔ (∀ n ∈ s, p n = false) ∧ x = y := by
  cases run : firstRun? p 0 s with
  | none =>
      have clear := firstRun?_eq_none_iff.mp run
      simpa using fun _ => clear
  | some first =>
      refine iff_of_false (by simp) fun both => ?_
      rw [firstRun?_eq_none_iff.mpr both.1] at run
      cases run

theorem encodeBelow_eq_ok_iff {codec : String} {limit : Nat} {s : CodePoints} {bytes : List UInt8} :
    encodeBelow codec limit s = .ok bytes ↔ (∀ n ∈ s, n < limit) ∧ s.map UInt8.ofNat = bytes := by
  refine refused_eq_ok_iff.trans ?_
  simp only [decide_eq_false_iff_not, Nat.not_le]

theorem decodeAscii_map {s : List Char} (small : ∀ c ∈ s, c.toNat < 128) : ∀ offset,
    decodeAscii offset ((s.map Char.toNat).map UInt8.ofNat) = .ok s := by
  induction s with
  | nil => exact fun _ => rfl
  | cons c rest ih =>
      intro offset
      have first := small c List.mem_cons_self
      have inside : UInt8.ofNat c.toNat < 128 := by
        rw [UInt8.lt_iff_toNat_lt, UInt8.toNat_ofNat_of_lt' (Nat.lt_trans first (by decide))]
        exact first
      rw [List.map_cons, List.map_cons, decodeAscii, if_pos inside,
        ih (fun d member => small d (List.mem_cons_of_mem c member)), ofNat_byte (by omega)]
      rfl

theorem decodeLatin1_map {s : List Char} (small : ∀ c ∈ s, c.toNat < 256) :
    decodeLatin1 ((s.map Char.toNat).map UInt8.ofNat) = s := by
  rw [decodeLatin1, List.map_map, List.map_map]
  refine (List.map_congr_left fun c member => ?_).trans (List.map_id s)
  exact ofNat_byte (small c member)

theorem windowsPoint?_of_byte {n : Nat} {b : UInt8} (byte : windowsByte? n = some b) :
    windowsPoint? b = some n := by
  rw [windowsByte?] at byte
  split at byte
  · next own =>
      obtain rfl := Option.some.inj byte
      have small : n < UInt8.size := by
        have size : UInt8.size = 256 := rfl
        omega
      rw [windowsPoint?, UInt8.toNat_ofNat_of_lt' small, if_neg (by omega)]
  · split at byte
    · cases byte
    · next some =>
        obtain ⟨i, found, rfl⟩ := Option.map_eq_some_iff.mp byte
        obtain ⟨inside, same, _⟩ := List.findIdx?_eq_some_iff_getElem.mp found
        have length : windowsWestern.length = 32 := rfl
        have small : 0x80 + i < UInt8.size := by
          have size : UInt8.size = 256 := rfl
          omega
        have there : windowsWestern[i]? = .some n := by
          rw [List.getElem?_eq_getElem inside, beq_iff_eq.mp same]
        rw [windowsPoint?, UInt8.toNat_ofNat_of_lt' small, if_pos (by omega), Nat.add_sub_cancel_left,
          there, Option.filter_some, if_pos (by simpa using some)]

theorem encodeWindows_eq_ok_iff {s : CodePoints} {bytes : List UInt8} :
    encodeWindows s = .ok bytes ↔
      (∀ n ∈ s, (windowsByte? n).isSome = true) ∧ s.filterMap windowsByte? = bytes := by
  refine refused_eq_ok_iff.trans ?_
  simp only [Option.isNone_eq_false_iff]

theorem decodeWindows_filterMap {s : List Char}
    (known : ∀ c ∈ s, (windowsByte? c.toNat).isSome = true) : ∀ offset,
    decodeWindows offset ((s.map Char.toNat).filterMap windowsByte?) = .ok s := by
  induction s with
  | nil => exact fun _ => rfl
  | cons c rest ih =>
      intro offset
      obtain ⟨b, byte⟩ := Option.isSome_iff_exists.mp (known c List.mem_cons_self)
      rw [List.map_cons, List.filterMap_cons_some byte, decodeWindows, windowsPoint?_of_byte byte]
      dsimp only
      rw [ih fun d member => known d (List.mem_cons_of_mem c member), Char.ofNat_toNat]
      rfl

/-! Units of several bytes. -/

section Units
variable {n : Nat}

theorem length_unitBytes (order : ByteOrder) (k : Nat) : ∀ n, (unitBytes order k n).length = k := by
  induction k with
  | zero => exact fun _ => rfl
  | succ k ih =>
      intro n
      cases order <;> simp [unitBytes, ih]

theorem unitOf_succ (order : ByteOrder) (k n : Nat) :
    unitOf order (unitBytes order (k + 1) n) =
      unitOf order (unitBytes order k (n / 256)) * 256 + n % 256 := by
  have byte : (UInt8.ofNat n).toNat = n % 256 := UInt8.toNat_ofNat'
  cases order with
  | little => simp only [unitBytes, unitOf, List.reverse_cons, List.foldl_append, List.foldl_cons,
      List.foldl_nil, byte]
  | big => simp only [unitBytes, unitOf, List.foldl_append, List.foldl_cons, List.foldl_nil, byte]

theorem unitOf_unitBytes (order : ByteOrder) (k : Nat) :
    ∀ {n : Nat}, n < 256 ^ k → unitOf order (unitBytes order k n) = n := by
  induction k with
  | zero =>
      intro n fits
      obtain rfl : n = 0 := by simpa using fits
      cases order <;> rfl
  | succ k ih =>
      intro n fits
      have rest : n / 256 < 256 ^ k := by
        rw [Nat.div_lt_iff_lt_mul (by decide)]
        rwa [Nat.pow_succ] at fits
      rw [unitOf_succ, ih rest]
      omega

theorem unitBytes_two (order : ByteOrder) (fits : n < 0x10000) :
    ∃ a b, unitBytes order 2 n = [a, b] ∧ unitOf order [a, b] = n := by
  match units : unitBytes order 2 n, length_unitBytes order 2 n with
  | [a, b], _ => exact ⟨a, b, rfl, by rw [← units]; exact unitOf_unitBytes order 2 fits⟩

theorem unitBytes_four (order : ByteOrder) (fits : n < 0x100000000) :
    ∃ a b c d, unitBytes order 4 n = [a, b, c, d] ∧ unitOf order [a, b, c, d] = n := by
  match units : unitBytes order 4 n, length_unitBytes order 4 n with
  | [a, b, c, d], _ => exact ⟨a, b, c, d, rfl, by rw [← units]; exact unitOf_unitBytes order 4 fits⟩

theorem decodeUtf16_unit (fits : n < 0x10000) (noHigh : Text.isHighSurrogate n = false)
    (noLow : Text.isLowSurrogate n = false) (order : ByteOrder) (offset : Nat) (r : List UInt8) :
    decodeUtf16 order offset (unitBytes order 2 n ++ r) =
      (decodeUtf16 order (offset + 2) r).map (Char.ofNat n :: ·) := by
  obtain ⟨a, b, units, value⟩ := unitBytes_two order fits
  rw [units, List.cons_append, List.cons_append, List.nil_append, decodeUtf16.eq_def]
  simp only [value, noHigh, noLow, Bool.false_eq_true, if_false]
  cases decodeUtf16 order (offset + 2) r <;> rfl

theorem decodeUtf16_pair {m : Nat} (high : Text.isHighSurrogate n = true)
    (low : Text.isLowSurrogate m = true) (order : ByteOrder) (offset : Nat) (r : List UInt8) :
    decodeUtf16 order offset (unitBytes order 2 n ++ (unitBytes order 2 m ++ r)) =
      (decodeUtf16 order (offset + 4) r).map (Char.ofNat (Text.joinSurrogates n m) :: ·) := by
  have fits : n < 0x10000 ∧ m < 0x10000 := by
    simp only [Text.isHighSurrogate, Text.isLowSurrogate, Bool.and_eq_true,
      decide_eq_true_eq] at high low
    omega
  obtain ⟨a, b, units, value⟩ := unitBytes_two order fits.1
  obtain ⟨c, d, units', value'⟩ := unitBytes_two order fits.2
  simp only [units, units', List.cons_append, List.nil_append, decodeUtf16, value, value', high, low,
    if_true]
  cases decodeUtf16 order (offset + 4) r <;> rfl

theorem decodeUtf16_char (order : ByteOrder) (c : Char) (r : List UInt8) (offset : Nat) : ∃ offset',
    decodeUtf16 order offset ((utf16Units c.toNat).flatMap (unitBytes order 2) ++ r) =
      (decodeUtf16 order offset' r).map (c :: ·) := by
  rw [utf16Units]
  split
  · next fits =>
      have noLow : Text.isLowSurrogate c.toNat = false := by
        have whole := Text.isSurrogate_toNat c
        simp only [Text.isSurrogate, Text.isLowSurrogate, Bool.and_eq_false_iff,
          decide_eq_false_iff_not] at whole ⊢
        omega
      have read := decodeUtf16_unit fits (Text.not_isHighSurrogate c) noLow order offset r
      rw [Char.ofNat_toNat] at read
      exact ⟨offset + 2, by simpa using read⟩
  · next beyond =>
      have read := decodeUtf16_pair (Text.isHighSurrogate_half (Text.toNat_lt c))
        (Text.isLowSurrogate_half (n := c.toNat)) order offset r
      rw [Text.joinSurrogates_halves (Nat.le_of_not_lt beyond), Char.ofNat_toNat] at read
      exact ⟨offset + 4, by simpa using read⟩

theorem decodeUtf32_char (order : ByteOrder) (c : Char) (r : List UInt8) (offset : Nat) :
    decodeUtf32 order offset (unitBytes order 4 c.toNat ++ r) =
      (decodeUtf32 order (offset + 4) r).map (c :: ·) := by
  have known := Text.toNat_lt c
  obtain ⟨x, y, z, t, units, value⟩ :=
    unitBytes_four order (Nat.lt_trans known (by decide))
  simp only [units, List.cons_append, List.nil_append, decodeUtf32, value, Text.isSurrogate_toNat,
    Nat.not_le_of_lt known, Char.ofNat_toNat, Bool.false_eq_true, if_false]
  cases decodeUtf32 order (offset + 4) r <;> rfl

theorem decode_flatMap {decode : Nat → List UInt8 → Except DecodeFault (List Char)}
    {encode : Char → List UInt8} (done : ∀ offset, decode offset [] = .ok [])
    (step : ∀ c r offset, ∃ offset', decode offset (encode c ++ r) =
      (decode offset' r).map (c :: ·)) (s : List Char) :
    ∀ offset, decode offset (s.flatMap encode) = .ok s := by
  induction s with
  | nil => exact done
  | cons c rest ih =>
      intro offset
      obtain ⟨offset', begun⟩ := step c (rest.flatMap encode) offset
      rw [List.flatMap_cons, begun, ih]
      rfl

theorem decodeUtf16_encodeUtf16 (order : ByteOrder) (s : String) (offset : Nat) :
    decodeUtf16 order offset (encodeUtf16 order s) = .ok s.toList := by
  rw [encodeUtf16, List.flatMap_assoc]
  exact decode_flatMap (fun _ => rfl) (decodeUtf16_char order) s.toList offset

theorem decodeUtf32_encodeUtf32 (order : ByteOrder) (s : String) (offset : Nat) :
    decodeUtf32 order offset (encodeUtf32 order s) = .ok s.toList :=
  decode_flatMap (fun _ => rfl) (fun c r offset => ⟨_, decodeUtf32_char order c r offset⟩) s.toList offset

end Units

/-! Codecs. -/

variable {codec : Codec} {s t : String} {b b' : ByteArray}

theorem map_eq_ok_iff {ε α β : Type} {x : Except ε α} {f : α → β} {y : β} :
    x.map f = .ok y ↔ ∃ a, x = .ok a ∧ f a = y := by
  cases x <;> simp [Except.map]

theorem encodeBody_append (first : codec.encodeBody (CodePoints.ofString s) = .ok b)
    (second : codec.encodeBody (CodePoints.ofString t) = .ok b') :
    codec.encodeBody (CodePoints.ofString (s ++ t)) = .ok (b ++ b') := by
  cases codec with
  | ascii | latin1 =>
      obtain ⟨x, encoded, rfl⟩ := map_eq_ok_iff.mp first
      obtain ⟨y, encoded', rfl⟩ := map_eq_ok_iff.mp second
      obtain ⟨small, rfl⟩ := encodeBelow_eq_ok_iff.mp encoded
      obtain ⟨small', rfl⟩ := encodeBelow_eq_ok_iff.mp encoded'
      refine map_eq_ok_iff.mpr ⟨_, encodeBelow_eq_ok_iff.mpr ⟨?_, rfl⟩, ?_⟩
      · rw [CodePoints.ofString_append]
        exact List.forall_mem_append.mpr ⟨small, small'⟩
      · rw [CodePoints.ofString_append, List.map_append, List.toByteArray_append]
  | windows =>
      obtain ⟨x, encoded, rfl⟩ := map_eq_ok_iff.mp first
      obtain ⟨y, encoded', rfl⟩ := map_eq_ok_iff.mp second
      obtain ⟨known, rfl⟩ := encodeWindows_eq_ok_iff.mp encoded
      obtain ⟨known', rfl⟩ := encodeWindows_eq_ok_iff.mp encoded'
      refine map_eq_ok_iff.mpr ⟨_, encodeWindows_eq_ok_iff.mpr ⟨?_, rfl⟩, ?_⟩
      · rw [CodePoints.ofString_append]
        exact List.forall_mem_append.mpr ⟨known, known'⟩
      · rw [CodePoints.ofString_append, List.filterMap_append, List.toByteArray_append]
  | utf8 | utf8Marked =>
      rw [encodeBody, encodeUtf8_ofString] at first second
      cases first
      cases second
      rw [encodeBody, encodeUtf8_ofString]
      exact congrArg Except.ok String.toByteArray_append
  | utf16 order =>
      simp only [encodeBody, withoutSurrogates_ofString, Except.map] at first second ⊢
      cases first
      cases second
      rw [encodeUtf16, encodeUtf16, encodeUtf16, String.toList_append, List.flatMap_append,
        List.flatMap_append, List.toByteArray_append]
  | utf32 order =>
      simp only [encodeBody, withoutSurrogates_ofString, Except.map] at first second ⊢
      cases first
      cases second
      rw [encodeUtf32, encodeUtf32, encodeUtf32, String.toList_append, List.flatMap_append,
        List.toByteArray_append]

/-- A text that is appended to a file, with a mark if the file is empty, makes it the file of the
whole text. -/
theorem encode_append (first : codec.encode true (CodePoints.ofString s) = .ok b)
    (second : codec.encode b.isEmpty (CodePoints.ofString t) = .ok b') :
    codec.encode true (CodePoints.ofString (s ++ t)) = .ok (b ++ b') := by
  obtain ⟨x, body, rfl⟩ := map_eq_ok_iff.mp first
  obtain ⟨y, body', rfl⟩ := map_eq_ok_iff.mp second
  refine map_eq_ok_iff.mpr ⟨x ++ y, encodeBody_append body body', ?_⟩
  simp only [if_true]
  split
  · next empty =>
      have unmarked : codec.mark.toByteArray = ByteArray.empty := by
        rw [ByteArray.isEmpty, beq_iff_eq, ByteArray.size_append] at empty
        exact ByteArray.size_eq_zero_iff.mp (by omega)
      rw [unmarked, ByteArray.empty_append, ByteArray.empty_append, ByteArray.empty_append]
  · rw [ByteArray.append_assoc]

theorem lift_map_ok (s : List Char) :
    lift ((Except.ok s : Except DecodeFault (List Char)).map String.ofList) =
      .ok (String.ofList s) := rfl

theorem markedOrder?_little (width : Nat) (r : List UInt8) :
    markedOrder? width (unitBytes .little width 0xFEFF ++ r) = some .little := by
  rw [markedOrder?, if_pos (List.take_left' (length_unitBytes .little width 0xFEFF))]

/-- Units in the order that is set, or behind a mark for the little one, are read back. -/
theorem decodeUnits_encoded {width : Nat}
    {decode : ByteOrder → Nat → List UInt8 → Except DecodeFault (List Char)} {bytes : List UInt8}
    {order : Option ByteOrder} (stream : Bool)
    (decoded : ∀ offset, decode (order.getD .little) offset bytes = .ok s.toList) :
    decodeUnits width decode stream order
      ((if order = none then unitBytes .little width 0xFEFF else []) ++ bytes) = .ok s := by
  cases order with
  | some order =>
      have read : decode order 0 bytes = .ok s.toList := decoded 0
      rw [if_neg (by simp), List.nil_append, decodeUnits, read, lift_map_ok, String.ofList_toList]
  | none =>
      have read : decode .little width bytes = .ok s.toList := decoded width
      rw [if_pos rfl, decodeUnits, markedOrder?_little]
      dsimp only
      rw [List.drop_left' (length_unitBytes .little width 0xFEFF), read, lift_map_ok,
        String.ofList_toList]

theorem decode_encode (stream : Bool)
    (encoded : codec.encode true (CodePoints.ofString s) = .ok b) :
    codec.decode stream b = .ok s := by
  obtain ⟨x, body, rfl⟩ := map_eq_ok_iff.mp encoded
  rw [if_pos rfl]
  cases codec with
  | ascii =>
      obtain ⟨bytes, below, rfl⟩ := map_eq_ok_iff.mp body
      obtain ⟨small, rfl⟩ := encodeBelow_eq_ok_iff.mp below
      have unmarked : ascii.mark = [] := rfl
      have read := decodeAscii_map (fun c member => small _ (List.mem_map_of_mem member)) 0
      rw [decode, toList_toByteArray_append, unmarked, List.nil_append, toList_toByteArray,
        CodePoints.ofString, read, lift_map_ok, String.ofList_toList]
  | latin1 =>
      obtain ⟨bytes, below, rfl⟩ := map_eq_ok_iff.mp body
      obtain ⟨small, rfl⟩ := encodeBelow_eq_ok_iff.mp below
      have unmarked : latin1.mark = [] := rfl
      have read := decodeLatin1_map fun c member => small _ (List.mem_map_of_mem member)
      rw [decode, toList_toByteArray_append, unmarked, List.nil_append, toList_toByteArray,
        CodePoints.ofString, read, String.ofList_toList]
  | windows =>
      obtain ⟨bytes, encodes, rfl⟩ := map_eq_ok_iff.mp body
      obtain ⟨known, rfl⟩ := encodeWindows_eq_ok_iff.mp encodes
      have unmarked : windows.mark = [] := rfl
      have read := decodeWindows_filterMap (fun c member => known _ (List.mem_map_of_mem member)) 0
      rw [decode, toList_toByteArray_append, unmarked, List.nil_append, toList_toByteArray,
        CodePoints.ofString, read, lift_map_ok, String.ofList_toList]
  | utf8 =>
      rw [encodeBody, encodeUtf8_ofString] at body
      cases body
      have unmarked : utf8.mark.toByteArray ++ s.toUTF8 = s.toUTF8 := ByteArray.empty_append
      rw [unmarked, decode, decodeUtf8_toUTF8]
      rfl
  | utf8Marked =>
      rw [encodeBody, encodeUtf8_ofString] at body
      cases body
      have marked : utf8Marked.mark = utf8Mark := rfl
      have length : utf8Mark.length = 3 := rfl
      rw [decode, toList_toByteArray_append, marked, if_pos (List.take_left' length),
        List.drop_left' length, toByteArray_toList, decodeUtf8_toUTF8]
      rfl
  | utf16 order =>
      simp only [encodeBody, withoutSurrogates_ofString, Except.map] at body
      cases body
      have read : decodeUnits 2 decodeUtf16 stream order _ = .ok s :=
        decodeUnits_encoded stream (decodeUtf16_encodeUtf16 (order.getD .little) s)
      rw [decode, toList_toByteArray_append, toList_toByteArray]
      cases order <;> exact read
  | utf32 order =>
      simp only [encodeBody, withoutSurrogates_ofString, Except.map] at body
      cases body
      have read : decodeUnits 4 decodeUtf32 stream order _ = .ok s :=
        decodeUnits_encoded stream (decodeUtf32_encodeUtf32 (order.getD .little) s)
      rw [decode, toList_toByteArray_append, toList_toByteArray]
      cases order <;> exact read

end FileQuery.Codec
