import FileQuery.Json.Document
import FileQuery.Json.Printer
import FileQuery.Toml.Scan

/-! Writing TOML documents. The entries of a table that are no tables come first, then its arrays of
tables; tables follow under headers of their own, those of one level before those of the next. -/
set_option autoImplicit false
namespace FileQuery.Toml

open Json (Value)

def writtenString (s : String) : List Char := '"' :: s.toList.flatMap escaped ++ ['"']
where
  escaped (c : Char) : List Char :=
    if c = '"' ∨ c = '\\' then ['\\', c]
    else if c = '\n' then ['\\', 'n']
    else if c = '\r' then ['\\', 'r']
    else if c = '\t' then ['\\', 't']
    else if Text.isPrintable c then [c]
    else if c.toNat < 0x10000 then '\\' :: 'u' :: Text.hexDigits 4 c.toNat
    else '\\' :: 'U' :: Text.hexDigits 8 c.toNat

def writtenKey (name : String) : List Char :=
  if name.toList.all isBareKeyChar && !name.isEmpty then name.toList else writtenString name

def shortExponent : List Char → List Char
  | 'e' :: sign :: '0' :: r => 'e' :: sign :: shortExponent r
  | c :: r => c :: shortExponent r
  | [] => []

def writtenReal (text : String) : List Char :=
  match text with
  | "Infinity" => "inf".toList
  | "-Infinity" => "-inf".toList
  | "NaN" => "nan".toList
  | text => shortExponent text.toList

mutual

/-- A value behind its key. A table here is an item of an array within an array, and stands for the
names of its entries. -/
def writtenValue : Value → List Char
  | .null => writtenString "None"
  | .bool b => (if b then "true" else "false").toList
  | .int n => Json.intText n
  | .real t => writtenReal t
  | .string s => writtenString s
  | .array vs => '[' :: writtenItems vs ++ [']']
  | .object es => '[' :: (es.flatMap fun e => ' ' :: writtenString e.1 ++ [',']) ++ [']']

def writtenItems : List Value → List Char
  | [] => []
  | v :: vs => ' ' :: writtenValue v ++ ',' :: writtenItems vs

end

def isTable : Value → Bool
  | .object _ => true
  | _ => false

def tablesOf? (v : Value) : Option (List Table) :=
  match v with
  | .array vs =>
    if vs.any isTable then
      some (vs.filterMap fun v => match v with
        | .object es => some es
        | _ => none)
    else none
  | _ => none

def plainLines (es : Table) : List Char :=
  es.flatMap fun (k, v) =>
    match v with
    | .null | .object _ => []
    | v => if (tablesOf? v).isSome then [] else writtenKey k ++ " = ".toList ++ writtenValue v ++ ['\n']

def tables (es : Table) : List (List Char × Table) :=
  es.filterMap fun (k, v) => match v with
    | .object inner => some (writtenKey k, inner)
    | _ => none

def tablesBelow : Nat → List (List Char × Table) → List (List Char × Table)
  | 0, _ => []
  | _ + 1, [] => []
  | n + 1, level =>
    level ++ tablesBelow n (level.flatMap fun (key, es) =>
      (tables es).map fun (k, inner) => (key ++ '.' :: k, inner))

/-- A table without the tables in it, under a dotted key that ends in a point or is empty. -/
def writtenBody : Nat → List Char → Table → List Char
  | 0, _, es => plainLines es
  | n + 1, above, es =>
    plainLines es ++ es.flatMap fun (k, v) =>
      match tablesOf? v with
      | none => []
      | some items => items.flatMap fun item =>
        let key := above ++ writtenKey k
        let body := writtenBody n (key ++ ['.']) item
        let below := (tablesBelow n (tables item)).flatMap fun (inner, es) =>
          match writtenBody n (key ++ '.' :: inner ++ ['.']) es with
          | [] => []
          | text => '[' :: key ++ '.' :: inner ++ "]\n".toList ++ text
        "[[".toList ++ key ++ "]]\n".toList ++
          (if body.head? = some '[' then '\n' :: body else body ++ ['\n']) ++ below

mutual

def height : Value → Nat
  | .array vs => itemsHeight vs + 1
  | .object es => entriesHeight es + 1
  | _ => 0

def itemsHeight : List Value → Nat
  | [] => 0
  | v :: vs => max (height v) (itemsHeight vs)

def entriesHeight : List (String × Value) → Nat
  | [] => 0
  | (_, v) :: es => max (height v) (entriesHeight es)

end

def addSection (levels : Nat) (written : List Char) (key : List Char) (es : Table) : List Char :=
  let body := writtenBody levels (key ++ ['.']) es
  if body.isEmpty && !(tables es).isEmpty then written
  else
    let gap := if written.isEmpty || ['\n', '\n'].isPrefixOf written.reverse then [] else ['\n']
    written ++ gap ++ '[' :: key ++ "]\n".toList ++ body

def write (es : Table) : String :=
  let levels := entriesHeight es
  String.ofList ((tablesBelow levels (tables es)).foldl
    (fun written (key, inner) => addSection levels written key inner) (writtenBody levels [] es))

end FileQuery.Toml
