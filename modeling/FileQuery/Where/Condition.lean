import FileQuery.Similarity
import FileQuery.Text.Blank
import FileQuery.Text.Case

/-! Conditions: an attribute, an operator and a literal. -/
set_option autoImplicit false
namespace FileQuery.Where

inductive Attribute where
  | name
  | content
  | extension
  | size
  | modified
  | created
  | permissions
  deriving DecidableEq, Repr

inductive Comparison where
  | eq
  | ne
  | gt
  | lt
  | ge
  | le
  deriving DecidableEq, Repr

inductive Operator where
  | like
  | compare (c : Comparison)
  deriving DecidableEq, Repr

namespace Comparison

def sign : Comparison → String
  | eq => "="
  | ne => "!="
  | gt => ">"
  | lt => "<"
  | ge => ">="
  | le => "<="

def isEquality : Comparison → Bool
  | eq | ne => true
  | _ => false

end Comparison

namespace Operator

def sign : Operator → String
  | like => "LIKE"
  | compare c => c.sign

end Operator

namespace Attribute

def all : List Attribute := [name, content, extension, size, modified, created, permissions]

def label : Attribute → String
  | name => "name"
  | content => "content"
  | extension => "extension"
  | size => "size"
  | modified => "modified"
  | created => "created"
  | permissions => "permissions"

def ofLabel? (s : String) : Option Attribute := all.find? (fun a => a.label == s)

def allows : Attribute → Operator → Bool
  | name, .like => true
  | name, .compare c => c.isEquality
  | content, .like => true
  | content, .compare _ => false
  | extension, .compare c => c.isEquality
  | permissions, .compare c => c.isEquality
  | size, .compare _ => true
  | modified, .compare _ => true
  | created, .compare _ => true
  | _, .like => false

end Attribute

inductive Reason where
  | unrecognized
  | unknownAttribute (label : String)
  | unsupported (operator : Operator) (subject : Attribute)
  | notAnInteger (literal : String)
  | invalidDate (literal : String)
  | invalidMode (literal : String)
  | tooDeep
  | noContent
  | unreadable (name cause : String)
  | failed (cause : String)
  deriving DecidableEq, Repr

namespace Reason

def message (best? : Matcher) : Reason → String
  | unrecognized => "unrecognized condition"
  | unknownAttribute label =>
    "unknown attribute '" ++ label ++ "'" ++
      match closest? best? label (Attribute.all.map Attribute.label) with
      | some h => " (did you mean '" ++ h ++ "'?)"
      | none => ""
  | unsupported operator subject =>
    "operator " ++ operator.sign ++ " is not supported for " ++ subject.label
  | notAnInteger literal => "size must be an integer, got '" ++ literal ++ "'"
  | invalidDate literal => "invalid date '" ++ literal ++ "'"
  | invalidMode literal => "invalid octal mode '" ++ literal ++ "'"
  | tooDeep => "parentheses nested too deeply"
  | noContent => "no filesystem available to read content"
  | unreadable name cause => "cannot read '" ++ name ++ "': " ++ cause
  | failed cause => cause

end Reason

structure ConditionError where
  condition : String
  reason : Reason
  deriving DecidableEq, Repr

def ConditionError.message (best? : Matcher) (e : ConditionError) : String :=
  "Condition '" ++ e.condition ++ "' failed: " ++ e.reason.message best?

structure Condition where
  subject : Attribute
  operator : Operator
  literal : String
  deriving DecidableEq, Repr

namespace Condition

/-- A letter or an underscore; letters are known by their case-insensitive key, so that a few
letters outside ASCII count as well. -/
def isLabelChar (c : Char) : Bool :=
  let k := Text.fold c
  (decide ('a'.toNat ≤ k) && decide (k ≤ 'z'.toNat)) || c == '_'

def dropWord? : List Char → List Char → Option (List Char)
  | [], s => some s
  | _ :: _, [] => none
  | w :: ws, c :: r => if Text.alike w c then dropWord? ws r else none

def likeOperand? (s : List Char) : Option (List Char) :=
  match s with
  | [] => none
  | c :: _ =>
    if Text.isBlank c then do
      let r ← dropWord? "like".toList (Text.trimStart s)
      match r with
      | [] => none
      | d :: _ => if Text.isBlank d then some (Text.trimStart r) else none
    else none

def signs : List (List Char × Comparison) :=
  [(['!', '='], .ne), (['>', '='], .ge), (['<', '='], .le), (['=', '='], .eq), (['='], .eq),
   (['>'], .gt), (['<'], .lt)]

/-- The first comparison whose sign begins a text and leaves something behind it. -/
def comparison? (s : List Char) : Option (Comparison × List Char) :=
  signs.findSome? fun (sign, c) =>
    if sign.isPrefixOf s && decide (sign.length < s.length) then some (c, s.drop sign.length)
    else none

def cut? (s : List Char) : Option (List Char × Operator × List Char) :=
  let label := s.takeWhile isLabelChar
  let rest := s.dropWhile isLabelChar
  if label.isEmpty then none
  else match likeOperand? rest with
    | some operand => some (label, .like, operand)
    | none => (comparison? (Text.trimStart rest)).map fun (c, operand) =>
      (label, .compare c, Text.trimStart operand)

/-- Takes off blanks, and one pair of equal quotes around what is left. -/
def unquote (s : List Char) : List Char :=
  let t := Text.trim s
  match t with
  | q :: r =>
    if (q = '"' ∨ q = '\'') ∧ r.getLast? = some q then r.dropLast else t
  | [] => t

def parse (text : List Char) : Except ConditionError Condition := do
  let fail (reason : Reason) : Except ConditionError Condition :=
    .error ⟨String.ofList text, reason⟩
  match cut? (Text.trim text) with
  | none => fail .unrecognized
  | some (label, operator, operand) =>
    let label := String.ofList (Text.lower label)
    match Attribute.ofLabel? label with
    | none => fail (.unknownAttribute label)
    | some subject =>
      if subject.allows operator then
        return { subject, operator, literal := String.ofList (unquote operand) }
      else fail (.unsupported operator subject)

/-- The canonical text: a size stands bare, any other literal between double quotes. -/
def text (c : Condition) : String :=
  let literal := if c.subject = .size then c.literal else "\"" ++ c.literal ++ "\""
  c.subject.label ++ " " ++ c.operator.sign ++ " " ++ literal

end Condition

end FileQuery.Where
