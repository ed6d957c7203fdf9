import FileQuery.Codec.Unicode
import FileQuery.Text.Case

/-! Encodings with one byte a character: ASCII, Latin-1 and the Windows page of Western Europe. -/
set_option autoImplicit false
namespace FileQuery.Codec

def decodeAscii (offset : Nat) : List UInt8 → Except DecodeFault (List Char)
  | [] => .ok []
  | b :: r =>
    if b < 128 then return Char.ofNat b.toNat :: (← decodeAscii (offset + 1) r)
    else .error ⟨"ascii", offset, 1, b, .notAscii⟩

def decodeLatin1 (bytes : List UInt8) : List Char := bytes.map fun b => Char.ofNat b.toNat

def encodeBelow (codec : String) (limit : Nat) (s : Text.CodePoints) :
    Except EncodeFault (List UInt8) :=
  match firstRun? (fun n => decide (limit ≤ n)) 0 s with
  | some (i, n, p) => .error ⟨codec, i, n, p, .ordinal limit⟩
  | none => .ok (s.map UInt8.ofNat)

/-- The characters of the Windows page at 0x80 to 0x9F; zero where there is none. -/
def windowsWestern : List Nat :=
  [0x20AC, 0, 0x201A, 0x0192, 0x201E, 0x2026, 0x2020, 0x2021, 0x02C6, 0x2030, 0x0160, 0x2039,
   0x0152, 0, 0x017D, 0, 0, 0x2018, 0x2019, 0x201C, 0x201D, 0x2022, 0x2013, 0x2014, 0x02DC, 0x2122,
   0x0161, 0x203A, 0x0153, 0, 0x017E, 0x0178]

def windowsPoint? (b : UInt8) : Option Nat :=
  let n := b.toNat
  if 0x80 ≤ n ∧ n ≤ 0x9F then (windowsWestern[n - 0x80]?).filter (· ≠ 0) else some n

def windowsByte? (n : Nat) : Option UInt8 :=
  if n < 0x80 ∨ (0xA0 ≤ n ∧ n ≤ 0xFF) then some (UInt8.ofNat n)
  else if n = 0 then none
  else (windowsWestern.findIdx? (· == n)).map fun i => UInt8.ofNat (0x80 + i)

def decodeWindows (offset : Nat) : List UInt8 → Except DecodeFault (List Char)
  | [] => .ok []
  | b :: r =>
    match windowsPoint? b with
    | some n => return Char.ofNat n :: (← decodeWindows (offset + 1) r)
    | none => .error ⟨"charmap", offset, 1, b, .undefinedByte⟩

def encodeWindows (s : Text.CodePoints) : Except EncodeFault (List UInt8) :=
  match firstRun? (fun n => (windowsByte? n).isNone) 0 s with
  | some (i, n, p) => .error ⟨"charmap", i, n, p, .undefinedCharacter⟩
  | none => .ok (s.filterMap windowsByte?)

end FileQuery.Codec

/-! Encodings by name, and texts to and from bytes. An encoding with a mark writes it at the start
of a file; as a stream of a file, UTF-16 and UTF-32 without a byte order must begin with one. Those that
are not spelled out here are what a library tells of them (`Codec.Foreign`). -/

namespace FileQuery

inductive Codec where
  | ascii
  | latin1
  | windows
  | utf8
  | utf8Marked
  | utf16 (order : Option Codec.ByteOrder)
  | utf32 (order : Option Codec.ByteOrder)
  deriving DecidableEq, Repr

namespace Codec

/-- Lower case, with every run of characters other than letters, digits and dots as one underscore
between them. -/
def normalizeName (s : List Char) : List Char :=
  let kept (c : Char) : Bool := c.isAlphanum || c == '.'
  let rec go (gap started : Bool) : List Char → List Char
    | [] => []
    | c :: r =>
      if kept c then
        if gap && started then '_' :: c.toLower :: go false true r else c.toLower :: go false true r
      else go true started r
  go false false s

def names : List (Codec × List String) :=
  [(.utf8, ["utf_8", "utf8", "u8", "utf", "utf8_ucs2", "utf8_ucs4", "cp65001"]),
   (.utf8Marked, ["utf_8_sig"]),
   (.ascii, ["ascii", "646", "ansi_x3.4_1968", "ansi_x3_4_1968", "ansi_x3.4_1986", "cp367",
     "csascii", "ibm367", "iso646_us", "iso_646.irv_1991", "iso_ir_6", "us", "us_ascii"]),
   (.latin1, ["latin_1", "8859", "cp819", "csisolatin1", "ibm819", "iso8859", "iso8859_1",
     "iso_8859_1", "iso_8859_1_1987", "iso_ir_100", "l1", "latin", "latin1"]),
   (.windows, ["cp1252", "1252", "windows_1252"]),
   (.utf16 none, ["utf_16", "u16", "utf16"]),
   (.utf16 (some .little), ["utf_16_le", "unicodelittleunmarked", "utf_16le"]),
   (.utf16 (some .big), ["utf_16_be", "unicodebigunmarked", "utf_16be"]),
   (.utf32 none, ["utf_32", "u32", "utf32"]),
   (.utf32 (some .little), ["utf_32_le", "utf_32le"]),
   (.utf32 (some .big), ["utf_32_be", "utf_32be"])]

def ofName? (name : String) : Option Codec :=
  let key := String.ofList (normalizeName name.toList)
  (names.find? (fun e => e.2.contains key)).map (·.1)

inductive ReadFault where
  | decode (f : DecodeFault)
  | noMark (bits : Nat)
  | other (message : String)
  deriving DecidableEq, Repr

inductive WriteFault where
  | encode (f : EncodeFault)
  | other (message : String)
  deriving DecidableEq, Repr

def noMarkText (bits : Nat) : String := s!"UTF-{bits} stream does not start with BOM"

def ReadFault.message : ReadFault → String
  | decode f => f.message
  | noMark bits => noMarkText bits
  | other message => message

def utf8Mark : List UInt8 := [0xEF, 0xBB, 0xBF]

def markedOrder? (width : Nat) (bytes : List UInt8) : Option ByteOrder :=
  if bytes.take width = unitBytes .little width 0xFEFF then some .little
  else if bytes.take width = unitBytes .big width 0xFEFF then some .big
  else none

def lift {α : Type} (r : Except DecodeFault α) : Except ReadFault α := r.mapError .decode

/-- Decodes bytes that stand in a byte order or begin with a mark. As a stream they must have a mark
when they hold a unit at all. -/
def decodeUnits (width : Nat) (decode : ByteOrder → Nat → List UInt8 → Except DecodeFault (List Char))
    (stream : Bool) (order : Option ByteOrder) (bytes : List UInt8) : Except ReadFault String :=
  match order with
  | some o => lift ((decode o 0 bytes).map String.ofList)
  | none =>
    match markedOrder? width bytes with
    | some o => lift ((decode o width (bytes.drop width)).map String.ofList)
    | none => do
      let s ← lift (decode .little 0 bytes)
      if stream && decide (width ≤ bytes.length) then throw (.noMark (8 * width))
      return String.ofList s

def decode (codec : Codec) (stream : Bool) (bytes : ByteArray) : Except ReadFault String :=
  match codec with
  | ascii => lift ((decodeAscii 0 bytes.toList).map String.ofList)
  | latin1 => .ok (String.ofList (decodeLatin1 bytes.toList))
  | windows => lift ((decodeWindows 0 bytes.toList).map String.ofList)
  | utf8 => lift (decodeUtf8 bytes)
  | utf8Marked =>
    let bs := bytes.toList
    if bs.take 3 = utf8Mark then lift (decodeUtf8 (bs.drop 3).toByteArray)
    else if stream && decide (bs.length < 3) && bs.isPrefixOf utf8Mark then .ok ""
    else lift (decodeUtf8 bytes)
  | utf16 order => decodeUnits 2 decodeUtf16 stream order bytes.toList
  | utf32 order => decodeUnits 4 decodeUtf32 stream order bytes.toList

def mark : Codec → List UInt8
  | utf8Marked => utf8Mark
  | utf16 none => unitBytes .little 2 0xFEFF
  | utf32 none => unitBytes .little 4 0xFEFF
  | _ => []

def encodeBody (codec : Codec) (s : Text.CodePoints) : Except EncodeFault ByteArray :=
  match codec with
  | ascii => (encodeBelow "ascii" 128 s).map List.toByteArray
  | latin1 => (encodeBelow "latin-1" 256 s).map List.toByteArray
  | windows => (encodeWindows s).map List.toByteArray
  | utf8 | utf8Marked => encodeUtf8 s
  | utf16 order =>
    let name := match order with
      | none => "utf-16"
      | some o => utf16Name o
    (withoutSurrogates name false s).map fun t => (encodeUtf16 (order.getD .little) t).toByteArray
  | utf32 order =>
    let name := match order with
      | none => "utf-32"
      | some o => utf32Name o
    (withoutSurrogates name false s).map fun t => (encodeUtf32 (order.getD .little) t).toByteArray

def encode (codec : Codec) (atStart : Bool) (s : Text.CodePoints) : Except EncodeFault ByteArray :=
  (encodeBody codec s).map fun body => if atStart then codec.mark.toByteArray ++ body else body

/-- Any other codec: what it reads from a file, what it makes of a whole text, and what it writes of a
text that more may follow, at the start of a file or behind what stands there. -/
structure Foreign where
  decode : ByteArray → Except ReadFault String
  encode : Text.CodePoints → Except WriteFault ByteArray
  write : Bool → Text.CodePoints → Except WriteFault ByteArray

end Codec

end FileQuery
