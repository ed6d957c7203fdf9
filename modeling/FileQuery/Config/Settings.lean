import FileQuery.Config.Tree
import FileQuery.Execution.Settings
import FileQuery.Libraries

/-! The settings that a configuration holds. What is missing is as by default; a value of the wrong
type is kept as what its use will be refused with. -/
set_option autoImplicit false
namespace FileQuery.Config

open Json (Value)

def entry? (v : Value) (key : String) : Except Fault (Option Value) :=
  match v with
  | .object es => .ok (es.lookup key)
  | v => .error (.noMember ("'" ++ typeName v ++ "' object has no attribute 'get'"))

def setting? (config : Section) (section_ key : String) : Except Fault (Option Value) :=
  match config.lookup section_ with
  | none => .ok none
  | some v => entry? v key

def isFalsy : Value → Bool
  | .null => true
  | .bool b => !b
  | .int n => n == 0
  | .real t => t == "0.0" || t == "-0.0"
  | .string s => s.isEmpty
  | .array vs => vs.isEmpty
  | .object es => es.isEmpty

def startFolder (config : Section) : Except Fault (Option String) := do
  match ← setting? config "general" "start_directory" with
  | none => return none
  | some v =>
    if isFalsy v then return none
    else match v with
      | .string s => return some s
      | v => throw (.illTyped ("expected str, bytes or os.PathLike object, not " ++ typeName v))

def encodingOf (codecs : String → Option Codec.Foreign) : Option Value → Store.Encoding
  | none | some .null => .utf8
  | some (.string s) => .ofName codecs s
  | some v => .illTyped (typeName v)

def boolNumber (b : Bool) : Int := if b then 1 else 0

def notComparable (operator left right : String) : String :=
  "'" ++ operator ++ "' not supported between instances of '" ++ left ++ "' and '" ++ right ++ "'"

/-- A number as a quotient, by its text; an infinity and what is no number are none. -/
def quotient? (text : String) : Option (Int × Nat) :=
  let (negative, body) := Text.cutSign text.toList
  (Json.cutWhole? body).map fun (whole, r) =>
    let (fraction, r) := Json.cutFraction r
    let e : Int := ((Json.cutExponent? r).map (·.1)).getD 0 - fraction.length
    let (n, m) := Number.powerOfTen e
    (Text.signed negative (Json.numberOf (whole ++ fraction) * n), m)

def unlimited : Int := Int.pow 10 18

def limitOfReal (text : String) : Int :=
  match quotient? text with
  | some (n, m) => n.fdiv m
  | none => if text = "-Infinity" then -unlimited else unlimited

def levelsOfReal (text : String) : Int :=
  match quotient? text with
  | some (n, m) => -((-n).fdiv m)
  | none => if text = "-Infinity" then -unlimited else unlimited

def realText (text : String) : String :=
  match text with
  | "Infinity" => "inf"
  | "-Infinity" => "-inf"
  | "NaN" => "nan"
  | text => text

def contentLimitOf : Option Value → Except String Int
  | none => .ok (10 * 1024 * 1024)
  | some (.int n) => .ok n
  | some (.real t) => .ok (limitOfReal t)
  | some (.bool b) => .ok (boolNumber b)
  | some v => .error (notComparable ">" "int" (typeName v))

def loadLimitOf : Option Value → Except String LoadLimit
  | none => .ok ⟨8, "8"⟩
  | some (.int n) => .ok ⟨n, toString n⟩
  | some (.real t) => .ok ⟨levelsOfReal t, realText t⟩
  | some (.bool b) => .ok ⟨boolNumber b, if b then "True" else "False"⟩
  | some v => .error (notComparable ">=" "int" (typeName v))

def titleOf : Option Value → Except String String
  | none => .ok "Search report:"
  | some (.string s) => .ok s
  | some v => .error ("sequence item 0: expected str instance, " ++ typeName v ++ " found")

def delimiterOf : Option Value → Except String String
  | none => .ok ","
  | some (.string s) => .ok s
  | some v => .error ("\"delimiter\" must be string, not " ++ typeName v)

def styleOf (config : Section) : Except Fault Report.Style := do
  let title ← setting? config "output" "text_report_title"
  let delimiter ← setting? config "output" "csv_delimiter"
  return { title := titleOf title, delimiter := delimiterOf delimiter }

def toSettings (libraries : Libraries) (config : Section) : Except Fault Settings := do
  let loadLimit ← setting? config "general" "max_load_depth"
  let encoding ← setting? config "query" "content_encoding"
  let contentLimit ← setting? config "query" "content_size_limit"
  return {
    matcher := libraries.matcher
    encoding := encodingOf libraries.codec encoding
    contentLimit := contentLimitOf contentLimit
    loadLimit := loadLimitOf loadLimit
    style := styleOf config }

end FileQuery.Config
