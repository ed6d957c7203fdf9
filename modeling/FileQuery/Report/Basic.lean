import FileQuery.Record
import FileQuery.Json.Printer

/-! Records as separated values: a header, then a row for each record, every row ended by a line
feed. A field is quoted when it holds the delimiter, a double quote or a line feed, and a quote
inside it is doubled. -/
set_option autoImplicit false
namespace FileQuery.Report

def mustQuote (delimiter : Char) (field : List Char) : Bool :=
  field.any fun c => c == delimiter || c == '"' || c == '\n'

def csvField (delimiter : Char) (field : List Char) : List Char :=
  if mustQuote delimiter field then
    '"' :: field.flatMap (fun c => if c = '"' then ['"', '"'] else [c]) ++ ['"']
  else field

def csvRow (delimiter : Char) : List (List Char) → List Char
  | [] => ['\n']
  | [f] => csvField delimiter f ++ ['\n']
  | f :: fs => csvField delimiter f ++ delimiter :: csvRow delimiter fs

def fieldText (r : Record) (f : Field) : String :=
  match r.shown f with
  | .string s => s
  | .int n => toString n
  | _ => ""

def csvRows (records : List Record) : List (List (List Char)) :=
  Field.labels.map String.toList ::
    records.map fun r => Field.all.map fun f => (fieldText r f).toList

def csv (delimiter : Char) (records : List Record) : String :=
  String.ofList ((csvRows records).flatMap (csvRow delimiter))

/-! Reports: the records of a selection as JSON, as separated values or as lines of fixed width,
chosen by the extension of the file they go to. -/

def json (records : List Record) : String := (Json.Value.array (records.map Record.toJson)).pretty

def padRight (width : Nat) (s : String) : String :=
  s ++ String.ofList (List.replicate (width - s.length) ' ')

def padLeft (width : Nat) (s : String) : String :=
  String.ofList (List.replicate (width - s.length) ' ') ++ s

def line (r : Record) : String :=
  padRight 30 r.name ++ " " ++ padRight 8 r.extension ++ " " ++
    padLeft 10 (toString r.size ++ " B") ++ " " ++ r.modified.iso

def lines (title : String) (records : List Record) : String :=
  String.intercalate "\n" (title :: records.map line) ++ "\n"

inductive Format where
  | json
  | csv
  | lines
  deriving DecidableEq, Repr

def Format.ofPath (path : String) : Format :=
  let extension := Text.lower (Path.extension (Path.baseName path.toList))
  if extension = ".json".toList then .json
  else if extension = ".csv".toList then .csv
  else .lines

def delimiter? (s : String) : Option Char :=
  match s.toList with
  | [c] => some c
  | _ => none

def delimiterFault : String := "\"delimiter\" must be a 1-character string"

/-- How reports are written. A setting that does not fit carries what its use is refused with. -/
structure Style where
  title : Except String String := .ok "Search report:"
  delimiter : Except String String := .ok ","

def render (style : Style) (path : String) (records : List Record) : Except String String :=
  match Format.ofPath path with
  | .json => .ok (json records)
  | .csv => do
    let d ← style.delimiter
    match delimiter? d with
    | some c => return csv c records
    | none => throw delimiterFault
  | .lines => do return lines (← style.title) records

end FileQuery.Report
