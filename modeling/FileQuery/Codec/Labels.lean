import FileQuery.Codec.Basic

/-! A codec for the names of hosts, as far as they are ASCII: labels with dots between them. What it
writes of a text ends with a label's dot; the label behind that may still go on, and is kept back. -/
set_option autoImplicit false
namespace FileQuery.Codec

def labelsOf : Text.CodePoints → List Text.CodePoints
  | [] => [[]]
  | n :: r =>
    match labelsOf r with
    | [] => [[n]]
    | l :: ls => if n = '.'.toNat then [] :: l :: ls else (n :: l) :: ls

def isLabel (l : Text.CodePoints) : Bool := decide (0 < l.length) && decide (l.length < 64)

def asciiBytes (s : Text.CodePoints) : Except WriteFault ByteArray :=
  (encodeBody .ascii s).mapError .encode

namespace Foreign

/-- A text as a whole ends in a label, or in a dot. -/
def encodeLabels (s : Text.CodePoints) : Except WriteFault ByteArray :=
  let labels := labelsOf s
  if !s.isEmpty && !labels.dropLast.all isLabel then .error (.other "label empty or too long")
  else if 64 ≤ (labels.getLastD []).length then .error (.other "label too long")
  else asciiBytes s

/-- The labels of a text that are finished, each with its dot. -/
def writeLabels (s : Text.CodePoints) : Except WriteFault ByteArray :=
  let finished := (labelsOf s).dropLast
  if finished.all isLabel then asciiBytes (finished.flatMap (· ++ ['.'.toNat]))
  else .error (.other "label empty or too long")

def labels : Foreign where
  decode bytes := (decodeAscii 0 bytes.toList).mapError .decode |>.map String.ofList
  encode := encodeLabels
  write _ := writeLabels

end Foreign

end FileQuery.Codec
