import FileQuery.Text.Quoted
import FileQuery.Text.CodePoint

/-! Why bytes are no text in some encoding, or a text has no bytes in it. -/
set_option autoImplicit false
namespace FileQuery.Codec

inductive DecodeReason where
  | invalidStart
  | invalidContinuation
  | unexpectedEnd
  | truncated
  | illegalEncoding
  | illegalSurrogate
  | surrogateCodePoint
  | beyondUnicode
  | notAscii
  | undefinedByte
  | other (text : String)
  deriving DecidableEq, Repr

namespace DecodeReason

def message : DecodeReason → String
  | invalidStart => "invalid start byte"
  | invalidContinuation => "invalid continuation byte"
  | unexpectedEnd => "unexpected end of data"
  | truncated => "truncated data"
  | illegalEncoding => "illegal encoding"
  | illegalSurrogate => "illegal UTF-16 surrogate"
  | surrogateCodePoint => "code point in surrogate code point range(0xd800, 0xe000)"
  | beyondUnicode => "code point not in range(0x110000)"
  | notAscii => "ordinal not in range(128)"
  | undefinedByte => "character maps to <undefined>"
  | other text => text

end DecodeReason

structure DecodeFault where
  codec : String
  first : Nat
  count : Nat
  byte : UInt8
  reason : DecodeReason
  deriving DecidableEq, Repr

def positions (first count : Nat) : String :=
  if count ≤ 1 then s!"in position {first}" else s!"in position {first}-{first + count - 1}"

def DecodeFault.message (f : DecodeFault) : String :=
  "'" ++ f.codec ++ "' codec can't decode " ++
    (if f.count ≤ 1 then "byte 0x" ++ String.ofList (Text.hexDigits 2 f.byte.toNat) else "bytes") ++
    " " ++ positions f.first f.count ++ ": " ++ f.reason.message

inductive EncodeReason where
  | surrogate
  | ordinal (limit : Nat)
  | undefinedCharacter
  | other (text : String)
  deriving DecidableEq, Repr

namespace EncodeReason

def message : EncodeReason → String
  | surrogate => "surrogates not allowed"
  | ordinal limit => s!"ordinal not in range({limit})"
  | undefinedCharacter => "character maps to <undefined>"
  | other text => text

end EncodeReason

structure EncodeFault where
  codec : String
  first : Nat
  count : Nat
  point : Nat
  reason : EncodeReason
  deriving DecidableEq, Repr

def EncodeFault.message (f : EncodeFault) : String :=
  "'" ++ f.codec ++ "' codec can't encode " ++
    (if f.count ≤ 1 then "character '" ++ String.ofList (Text.hexEscape f.point) ++ "'"
      else "characters") ++
    " " ++ positions f.first f.count ++ ": " ++ f.reason.message

/-! The encodings of Unicode in units of one, two and four bytes. -/

inductive ByteOrder where
  | little
  | big
  deriving DecidableEq, Repr

def isContinuation (b : Nat) : Bool := decide (0x80 ≤ b) && decide (b ≤ 0xBF)

def continuationCount? (b : Nat) : Option Nat :=
  if b < 0x80 then some 0
  else if 0xC2 ≤ b ∧ b ≤ 0xDF then some 1
  else if 0xE0 ≤ b ∧ b ≤ 0xEF then some 2
  else if 0xF0 ≤ b ∧ b ≤ 0xF4 then some 3
  else none

/-- Whether a second byte fits its start byte: neither too long a form, nor a surrogate, nor beyond
the last code point. -/
def fitsStart (b c : Nat) : Bool :=
  isContinuation c && !(b == 0xE0 && decide (c < 0xA0)) && !(b == 0xED && decide (0xA0 ≤ c)) &&
    !(b == 0xF0 && decide (c < 0x90)) && !(b == 0xF4 && decide (0x90 ≤ c))

/-- How many bytes of a faulty sequence belong together, and why they are faulty; none if the
sequence is sound. -/
def sequenceFault? (b : Nat) (rest : List Nat) : Option (Nat × DecodeReason) :=
  match continuationCount? b with
  | none => some (1, .invalidStart)
  | some 0 => none
  | some k =>
    match rest with
    | [] => some (1, .unexpectedEnd)
    | c :: r =>
      if !fitsStart b c then some (1, .invalidContinuation)
      else
        let own := (r.take (k - 1)).takeWhile isContinuation
        if own.length = k - 1 then none
        else if own.length = r.length then some (2 + own.length, .unexpectedEnd)
        else some (2 + own.length, .invalidContinuation)

/-- The first fault of bytes as UTF-8, `skip` bytes of the current sequence still to pass. -/
def utf8Fault? (offset : Nat) : Nat → List UInt8 → Option DecodeFault
  | _, [] => none
  | skip + 1, _ :: r => utf8Fault? (offset + 1) skip r
  | 0, b :: r =>
    match sequenceFault? b.toNat (r.map UInt8.toNat) with
    | some (count, reason) => some ⟨"utf-8", offset, count, b, reason⟩
    | none => utf8Fault? (offset + 1) ((continuationCount? b.toNat).getD 0) r

def decodeUtf8 (bytes : ByteArray) : Except DecodeFault String :=
  match String.fromUTF8? bytes with
  | some s => .ok s
  | none => .error ((utf8Fault? 0 0 bytes.toList).getD ⟨"utf-8", 0, 1, 0, .invalidStart⟩)

def runLength (p : Nat → Bool) (s : List Nat) : Nat := (s.takeWhile p).length

def firstRun? (p : Nat → Bool) : Nat → List Nat → Option (Nat × Nat × Nat)
  | _, [] => none
  | i, n :: r => if p n then some (i, runLength p (n :: r), n) else firstRun? p (i + 1) r

/-- Refuses a text with lone surrogates, reporting the first run of them or only the first one. -/
def withoutSurrogates (codec : String) (wholeRun : Bool) (s : Text.CodePoints) :
    Except EncodeFault String :=
  match firstRun? Text.isSurrogate 0 s with
  | some (i, n, p) => .error ⟨codec, i, if wholeRun then n else 1, p, .surrogate⟩
  | none => .ok (String.ofList (s.map Char.ofNat))

def encodeUtf8 (s : Text.CodePoints) : Except EncodeFault ByteArray :=
  (withoutSurrogates "utf-8" true s).map String.toUTF8

def unitOf (order : ByteOrder) (bytes : List UInt8) : Nat :=
  let bs := match order with
    | .little => bytes.reverse
    | .big => bytes
  bs.foldl (fun n b => n * 256 + b.toNat) 0

def unitBytes (order : ByteOrder) : Nat → Nat → List UInt8
  | 0, _ => []
  | k + 1, n =>
    match order with
    | .little => UInt8.ofNat n :: unitBytes order k (n / 256)
    | .big => unitBytes order k (n / 256) ++ [UInt8.ofNat n]

def utf16Name : ByteOrder → String
  | .little => "utf-16-le"
  | .big => "utf-16-be"

def utf32Name : ByteOrder → String
  | .little => "utf-32-le"
  | .big => "utf-32-be"

def decodeUtf16 (order : ByteOrder) (offset : Nat) : List UInt8 → Except DecodeFault (List Char)
  | [] => .ok []
  | [a] => .error ⟨utf16Name order, offset, 1, a, .truncated⟩
  | a :: b :: r =>
    let n := unitOf order [a, b]
    if Text.isHighSurrogate n then
      match r with
      | c :: d :: r =>
        let m := unitOf order [c, d]
        if Text.isLowSurrogate m then
          return Char.ofNat (Text.joinSurrogates n m) :: (← decodeUtf16 order (offset + 4) r)
        else .error ⟨utf16Name order, offset, 2, a, .illegalSurrogate⟩
      | r => .error ⟨utf16Name order, offset, 2 + r.length, a, .unexpectedEnd⟩
    else if Text.isLowSurrogate n then .error ⟨utf16Name order, offset, 2, a, .illegalEncoding⟩
    else return Char.ofNat n :: (← decodeUtf16 order (offset + 2) r)

def decodeUtf32 (order : ByteOrder) (offset : Nat) : List UInt8 → Except DecodeFault (List Char)
  | [] => .ok []
  | a :: b :: c :: d :: r =>
    let n := unitOf order [a, b, c, d]
    if Text.isSurrogate n then .error ⟨utf32Name order, offset, 4, a, .surrogateCodePoint⟩
    else if 0x110000 ≤ n then .error ⟨utf32Name order, offset, 4, a, .beyondUnicode⟩
    else return Char.ofNat n :: (← decodeUtf32 order (offset + 4) r)
  | a :: r => .error ⟨utf32Name order, offset, 1 + r.length, a, .truncated⟩

def utf16Units (n : Nat) : List Nat :=
  if n < 0x10000 then [n]
  else [0xD800 + (n - 0x10000) / 0x400, 0xDC00 + (n - 0x10000) % 0x400]

def encodeUtf16 (order : ByteOrder) (s : String) : List UInt8 :=
  (s.toList.flatMap fun c => utf16Units c.toNat).flatMap (unitBytes order 2)

def encodeUtf32 (order : ByteOrder) (s : String) : List UInt8 :=
  s.toList.flatMap fun c => unitBytes order 4 c.toNat

end FileQuery.Codec
