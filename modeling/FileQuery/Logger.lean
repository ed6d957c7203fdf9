import FileQuery.Config.Settings
import FileQuery.Json.Printer
import FileQuery.Log
import FileQuery.Text.Case

/-! The logger: entries of a level that is high enough are written down, one line each, in a format
with fields. The `logging` section of a configuration sets both. -/
set_option autoImplicit false
namespace FileQuery

inductive LogField where
  | level
  | number
  | message
  | source
  deriving DecidableEq, Repr

namespace LogField

def ofName? : String → Option LogField
  | "levelname" => some level
  | "levelno" => some number
  | "message" => some message
  | "name" => some source
  | _ => none

def text (e : LogEntry) : LogField → String
  | level => e.level.label
  | number => toString e.level.number
  | message => e.message
  | source => e.source

end LogField

/-- A field in a format: flags, the least width, the most characters, and the letter that says how
it is shown. -/
structure Placeholder where
  name : String
  flags : List Char
  width : Nat
  precision : Option Nat
  conversion : Char
  deriving DecidableEq, Repr

namespace Placeholder

def cutNumber (s : List Char) : Nat × List Char :=
  (Json.numberOf (s.takeWhile Json.isDigit), s.dropWhile Json.isDigit)

def isFlag (c : Char) : Bool := ['#', '0', '+', ' ', '-'].contains c

def read? (s : List Char) : Option (Placeholder × List Char) :=
  let name := s.takeWhile (· != ')')
  match s.dropWhile (· != ')') with
  | [] => none
  | _ :: r =>
    let flags := r.takeWhile isFlag
    let (width, r) := cutNumber (r.dropWhile isFlag)
    let (precision, r) := match r with
      | '.' :: r => let (n, r) := cutNumber r; (some n, r)
      | r => (none, r)
    match r with
    | [] => none
    | c :: r => some (⟨String.ofList name, flags, width, precision, c⟩, r)

def isKnown (p : Placeholder) : Bool :=
  "diouxefgcrsa%".toList.contains p.conversion.toLower &&
    !p.name.isEmpty && p.name.toList.all fun c => c.isAlphanum || c == '_'

/-- Blanks up to the width, at the end if a dash asks for it; zeros before a number on demand. -/
def pad (p : Placeholder) (number : Bool) (s : List Char) : List Char :=
  let missing := p.width - s.length
  if p.flags.contains '-' then s ++ List.replicate missing ' '
  else List.replicate missing (if number && p.flags.contains '0' then '0' else ' ') ++ s

/-- The text of a field of an entry; none if the entry has no such field or it cannot be shown so. -/
def text? (e : LogEntry) (p : Placeholder) : Option (List Char) :=
  (LogField.ofName? p.name).bind fun field =>
    let text := (field.text e).toList
    let cut (s : List Char) : List Char := match p.precision with
      | some n => s.take n
      | none => s
    match p.conversion with
    | 's' => some (p.pad false (cut text))
    | 'r' | 'a' =>
      some (p.pad false (cut (if field = .number then text else (Text.quoted (field.text e)).toList)))
    | 'd' | 'i' | 'u' => if field = .number then some (p.pad true text) else none
    | '%' => some ['%']
    | _ => none

end Placeholder

/-- The line of an entry in a format; none if the format does not fit. The first argument is at
least the number of characters. -/
def entryLine? (e : LogEntry) : Nat → List Char → Option (List Char)
  | 0, _ => some []
  | n + 1, s =>
    match s with
    | [] => some []
    | '%' :: '%' :: r => (entryLine? e n r).map ('%' :: ·)
    | '%' :: '(' :: r => do
      let (p, r) ← Placeholder.read? r
      let text ← p.text? e
      let rest ← entryLine? e n r
      return text ++ rest
    | '%' :: _ => none
    | c :: r => (entryLine? e n r).map (c :: ·)

def hasField : List Char → Bool
  | [] => false
  | c :: r =>
    (c == '%' && match r with
      | '(' :: r => (Placeholder.read? r).any fun p => p.1.isKnown
      | _ => false) || hasField r

/-- A logger; level zero stands for the usual one. -/
structure Logger where
  level : Int := 0
  format : String := "[%(levelname)s] %(message)s"
  written : String := ""

namespace Logger

def levels : List (String × Int) :=
  [("CRITICAL", 50), ("FATAL", 50), ("ERROR", 40), ("WARN", 30), ("WARNING", 30), ("SUCCESS", 25),
   ("INFO", 20), ("DEBUG", 10), ("NOTSET", 0)]

def usualLevel : Int := 20

def threshold (l : Logger) : Int := if l.level = 0 then usualLevel else l.level

def passes (l : Logger) (e : LogEntry) : Bool := decide (l.threshold ≤ e.level.number)

def write (l : Logger) (e : LogEntry) : Logger :=
  if l.passes e then
    match entryLine? e (l.format.length + 1) l.format.toList with
    | some line => { l with written := l.written ++ String.ofList line ++ "\n" }
    | none => l
  else l

def writeAll (l : Logger) (es : List LogEntry) : Logger := es.foldl write l

mutual

def valueText : Json.Value → String
  | .null => "None"
  | .bool b => if b then "True" else "False"
  | .int n => toString n
  | .real t => Config.realText t
  | .string s => Text.quoted s
  | .array vs => "[" ++ String.intercalate ", " (itemTexts vs) ++ "]"
  | .object es => "\x7b" ++ String.intercalate ", " (entryTexts es) ++ "\x7d"

def itemTexts : List Json.Value → List String
  | [] => []
  | v :: vs => valueText v :: itemTexts vs

def entryTexts : List (String × Json.Value) → List String
  | [] => []
  | (k, v) :: es => (Text.quoted k ++ ": " ++ valueText v) :: entryTexts es

end

def levelName : Option Json.Value → String
  | none => "INFO"
  | some (.string s) => Text.mapString Text.upper s
  | some v => Text.mapString Text.upper (valueText v)

def unknownLevel (name : String) : LogEntry :=
  ⟨.warning, "Unknown log level '" ++ name ++ "', using INFO", "filang"⟩

def setLevel (l : Logger) (name : String) : Logger × List LogEntry :=
  match levels.lookup name with
  | some n => ({ l with level := n }, [])
  | none =>
    let report := unknownLevel name
    ({ l.write report with level := usualLevel }, [report])

def setFormat (l : Logger) (v : Option Json.Value) : Except Fault Logger :=
  match v with
  | none => .ok l
  | some v =>
    if Config.isFalsy v then .ok l
    else match v with
      | .string s =>
        if hasField s.toList then .ok { l with format := s }
        else .error (.invalid ("Invalid format '" ++ s ++ "' for '%' style"))
      | v =>
        .error (.illTyped
          ("expected string or bytes-like object, got '" ++ Config.typeName v ++ "'"))

/-- Applies the `logging` section of a configuration. What is reported meanwhile comes back beside
the logger, which keeps its level when the format is refused. -/
def configure (l : Logger) (config : Config.Section) : Except Fault Unit × Logger × List LogEntry :=
  match Config.setting? config "logging" "level" with
  | .error f => (.error f, l, [])
  | .ok level =>
    let (set, reported) := l.setLevel (levelName level)
    let reported := reported.filter l.passes
    match (do set.setFormat (← Config.setting? config "logging" "format")) with
    | .error f => (.error f, set, reported)
    | .ok l => (.ok (), l, reported)

end Logger

end FileQuery
