import FileQuery.Config.Tree
import FileQuery.Text.Case
import FileQuery.Text.Quoted

/-! Settings from environment variables. The name of a variable, in lower case and cut at
underscores, spells the names of sections and of an entry, the longest name first; its value takes
the place of that entry. A variable that spells no entry does nothing. -/
set_option autoImplicit false
namespace FileQuery.Config

open Json (Value)

def nameParts : List Char → List (List Char)
  | [] => [[]]
  | c :: r =>
    if c = '_' then [] :: nameParts r
    else match nameParts r with
      | [] => [[c]]
      | p :: ps => (c :: p) :: ps

def keyParts (key : String) : List (List Char) := nameParts key.toList

/-- The entry whose name takes the most of the parts at their head; the first of equals. -/
def bestKey? (parts : List (List Char)) : Section → Option String
  | [] => none
  | (k, _) :: es =>
    let later := bestKey? parts es
    if (keyParts k).isPrefixOf parts then
      match later with
      | some l => if (keyParts k).length < (keyParts l).length then some l else some k
      | none => some k
    else later

mutual

def assignBelow (v : Value) (parts : List (List Char)) : Value → Value
  | .object es =>
    match bestKey? parts es with
    | none => .object es
    | some key => .object (assignAt v key (parts.drop (keyParts key).length) es)
  | old => old

/-- Puts a value into the entry of a name, or below it if parts are left. An entry without a name is
out of reach. -/
def assignAt (v : Value) (key : String) (left : List (List Char)) : Section → Section
  | [] => []
  | (k, old) :: es =>
    if k = key then
      (k, if key.isEmpty then old else if left.isEmpty then v else assignBelow v left old) :: es
    else (k, old) :: assignAt v key left es

end

def assign (v : Value) (parts : List (List Char)) (config : Section) : Section :=
  match bestKey? parts config with
  | none => config
  | some key => assignAt v key (parts.drop (keyParts key).length) config

mutual

/-- The sections that parts lead through from a value on, each by the keys that lead to it. -/
def ways (parts : List (List Char)) : Value → List (List String)
  | .object es =>
    match bestKey? parts es with
    | none => [[]]
    | some key => [] :: (waysAt key (parts.drop (keyParts key).length) es).map (key :: ·)
  | _ => []

def waysAt (key : String) (left : List (List Char)) : Section → List (List String)
  | [] => []
  | (k, v) :: es =>
    if k = key then if key.isEmpty || left.isEmpty then [] else ways left v
    else waysAt key left es

end

inductive ValueError where
  | notDecimal (text : String)
  | tooManyDigits (count : Nat)
  deriving DecidableEq, Repr

namespace ValueError

def message : ValueError → String
  | notDecimal text => "invalid literal for int() with base 10: " ++ Text.quoted text
  | tooManyDigits n => Text.tooManyDigitsText n

end ValueError

def valueOfText (text : String) : Except ValueError Value :=
  let chars := text.toList
  let key := String.ofList (Text.lower chars)
  if ["true", "yes", "on"].contains key then .ok (.bool true)
  else if ["false", "no", "off"].contains key then .ok (.bool false)
  else if !chars.isEmpty && chars.all Text.isDigitSign then
    match Text.readDecimal chars with
    | .ok n => .ok (.int n)
    | .error (.tooLong n) => .error (.tooManyDigits n)
    | .error .malformed => .error (.notDecimal text)
  else .ok (.string text)

def variableMark : String := "FILANG_"

def fileVariable : String := "FILANG_CONFIG"

def homeVariable : String := "HOME"

def settingParts? (name : String) : Option (List (List Char)) :=
  if variableMark.toList.isPrefixOf name.toList && name != fileVariable then
    some (nameParts (Text.lower (name.toList.drop variableMark.length)))
  else none

def applyVariables : List (String × String) → Section → Except ValueError Section
  | [], config => .ok config
  | (name, text) :: rest, config =>
    match settingParts? name with
    | none => applyVariables rest config
    | some parts => do
      let v ← valueOfText text
      applyVariables rest (assign v parts config)

end FileQuery.Config
