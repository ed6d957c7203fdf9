import FileQuery.Store.Walk

/-! Texts in files. Reading makes every line break a line feed; writing leaves a text as it is. A
file is emptied before a text is encoded, so a text that does not encode leaves an empty file; what
cannot be appended leaves the bytes as they were. -/
set_option autoImplicit false
namespace FileQuery.Store

/-- Every carriage return, with a line feed after it or not, as one line feed. -/
def unifyBreaks : List Char → List Char
  | '\r' :: '\n' :: r => '\n' :: unifyBreaks r
  | '\r' :: r => '\n' :: unifyBreaks r
  | c :: r => c :: unifyBreaks r
  | [] => []

def bytesAt (s : Store) (path : String) : Except Fault ByteArray := do
  match ← s.stat true path with
  | (_, .file bytes _ _) => return bytes
  | _ => throw (.os (.os .isDirectory path))

def readText (s : Store) (path : String) (encoding : Encoding) : Except Fault String := do
  encoding.checkType
  let bytes ← s.bytesAt path
  let text ← encoding.read bytes
  return String.ofList (unifyBreaks text.toList)

/-- The place and the mode of a file to be opened for writing; a free name gets a new file. -/
def target (s : Store) (path : String) : Except Fault (Place × ByteArray × Nat) := do
  match ← s.locate true path with
  | .found place (.file bytes mode _) => return (place, bytes, mode)
  | .found _ _ => throw (.os (.os .isDirectory path))
  | .free place => return (place, ByteArray.empty, fileMode)

def putBytes (s : Store) (place : Place) (mode : Nat) (bytes : ByteArray) : Store :=
  s.put place (.file bytes mode s.now)

/-- A change of the store that may stop at a fault, with what it did until then. -/
abbrev Change := Store → Except Fault Unit × Store

/-- A change that happens as a whole or not at all. -/
def Change.ofExcept (f : Store → Except Fault Store) : Change := fun s =>
  match f s with
  | .ok s' => (.ok (), s')
  | .error e => (.error e, s)

/-- The bytes of a text as it goes to a file, at its start or behind what stands there. -/
def encodeText (encoding : Encoding) (atStart : Bool) (text : Text.CodePoints) :
    Except Fault ByteArray :=
  match encoding with
  | .codec c => (c.encode atStart text).mapError .encode
  | .foreign c => (c.write atStart text).mapError .ofWrite
  | .unknown name => .error (.unknownEncoding name)
  | .illTyped type => .error (.illTypedEncoding type)

def encodeWhole (encoding : Encoding) (text : Text.CodePoints) : Except Fault ByteArray :=
  match encoding with
  | .foreign c => (c.encode text).mapError .ofWrite
  | encoding => encodeText encoding true text

def writeText (path : String) (text : Text.CodePoints) (encoding : Encoding) : Change := fun s =>
  match (do encoding.checkType; s.target path) with
  | .error f => (.error f, s)
  | .ok (place, _, mode) =>
    match encodeText encoding true text with
    | .ok bytes => (.ok (), s.putBytes place mode bytes)
    | .error f => (.error f, s.putBytes place mode ByteArray.empty)

def appendText (path : String) (text : Text.CodePoints) (encoding : Encoding) : Change := fun s =>
  match (do encoding.checkType; s.target path) with
  | .error f => (.error f, s)
  | .ok (place, old, mode) =>
    match encodeText encoding old.isEmpty text with
    | .ok bytes => (.ok (), s.putBytes place mode (old ++ bytes))
    | .error f => (.error f, s.putBytes place mode old)

end FileQuery.Store
