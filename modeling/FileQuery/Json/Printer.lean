import FileQuery.Json.Basic
import FileQuery.Text.Quoted

/-! The text of JSON values, on one line or indented, with characters outside ASCII as they are or
escaped. -/
set_option autoImplicit false
namespace FileQuery.Json

def unitEscape (n : Nat) : List Char := '\\' :: 'u' :: Text.hexDigits 4 n

/-- A character inside a string. Beyond the first plane an escape takes two units. -/
def stringChar (ascii : Bool) (c : Char) : List Char :=
  match c with
  | '"' => ['\\', '"']
  | '\\' => ['\\', '\\']
  | '\n' => ['\\', 'n']
  | '\r' => ['\\', 'r']
  | '\t' => ['\\', 't']
  | '\x08' => ['\\', 'b']
  | '\x0c' => ['\\', 'f']
  | c =>
    let n := c.toNat
    if n < 0x20 then unitEscape n
    else if !ascii || n < 0x7F then [c]
    else if n < 0x10000 then unitEscape n
    else unitEscape (0xD800 + (n - 0x10000) / 0x400) ++
      unitEscape (0xDC00 + (n - 0x10000) % 0x400)

def stringText (ascii : Bool) (s : String) : List Char :=
  '"' :: s.toList.flatMap (stringChar ascii) ++ ['"']

def intText (n : Int) : List Char := (toString n).toList

structure Layout where
  indent : Option Nat := none
  ascii : Bool := false
  deriving DecidableEq, Repr

namespace Layout

def newline (l : Layout) (depth : Nat) : List Char :=
  match l.indent with
  | none => []
  | some k => '\n' :: List.replicate (k * depth) ' '

def comma (l : Layout) (depth : Nat) : List Char :=
  match l.indent with
  | none => [',', ' ']
  | some _ => ',' :: l.newline depth

end Layout

mutual

def Value.chars (l : Layout) (depth : Nat) : Value → List Char
  | .null => "null".toList
  | .bool b => (if b then "true" else "false").toList
  | .int n => intText n
  | .real t => t.toList
  | .string s => stringText l.ascii s
  | .array [] => ['[', ']']
  | .array (v :: vs) =>
    '[' :: l.newline (depth + 1) ++ v.chars l (depth + 1) ++ itemChars l (depth + 1) vs ++
      l.newline depth ++ [']']
  | .object [] => ['\x7b', '\x7d']
  | .object ((k, v) :: es) =>
    '\x7b' :: l.newline (depth + 1) ++ stringText l.ascii k ++ ':' :: ' ' ::
      v.chars l (depth + 1) ++ entryChars l (depth + 1) es ++ l.newline depth ++ ['\x7d']

def itemChars (l : Layout) (depth : Nat) : List Value → List Char
  | [] => []
  | v :: vs => l.comma depth ++ v.chars l depth ++ itemChars l depth vs

def entryChars (l : Layout) (depth : Nat) : List (String × Value) → List Char
  | [] => []
  | (k, v) :: es =>
    l.comma depth ++ stringText l.ascii k ++ ':' :: ' ' :: v.chars l depth ++
      entryChars l depth es

end

def Value.text (l : Layout) (v : Value) : String := String.ofList (v.chars l 0)

def Value.line (v : Value) : String := v.text {}

def Value.pretty (v : Value) : String := v.text { indent := some 2 }

end FileQuery.Json
