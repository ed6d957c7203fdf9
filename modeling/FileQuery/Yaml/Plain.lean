import FileQuery.Json.Document

/-! What unquoted YAML text stands for, by the rules of version 1.1: nothing, a truth value, an
integer in one of five notations, a number with a fraction, a point in time or the text itself. -/
set_option autoImplicit false
namespace FileQuery.Yaml

open Json (Value isDigit)

def nullWords : List String := ["", "~", "null", "Null", "NULL"]

def trueWords : List String := ["yes", "Yes", "YES", "true", "True", "TRUE", "on", "On", "ON"]

def falseWords : List String := ["no", "No", "NO", "false", "False", "FALSE", "off", "Off", "OFF"]

def markWords : List String := ["<<", "="]

def isBlankOrBreak (c : Char) : Bool := c == ' ' || c == '\t' || c == '\n'

def numberIn (base : Nat) (ds : List Char) : Nat :=
  ds.foldl (fun n c => if c = '_' then n else n * base + (Json.hexValue? c).getD 0) 0

def areDigits (base : Nat) (s : List Char) : Bool :=
  !s.isEmpty && s.all fun c => c == '_' || (Json.hexValue? c).any fun d => decide (d < base)

def colonParts : List Char → List (List Char)
  | [] => [[]]
  | c :: r =>
    if c = ':' then [] :: colonParts r
    else match colonParts r with
      | [] => [[c]]
      | p :: ps => (c :: p) :: ps

def isSixtieth (s : List Char) : Bool :=
  s.all isDigit && decide (s.length = 1 ∨ s.length = 2) && decide (Json.numberOf s < 60)

def inSixties (parts : List (List Char)) : Nat :=
  parts.foldl (fun n p => n * 60 + numberIn 10 p) 0

def natural? (s : List Char) : Option Nat :=
  match s with
  | '0' :: 'b' :: r => if areDigits 2 r then some (numberIn 2 r) else none
  | '0' :: 'x' :: r => if areDigits 16 r then some (numberIn 16 r) else none
  | ['0'] => some 0
  | '0' :: r => if areDigits 8 r then some (numberIn 8 r) else none
  | c :: _ =>
    if !isDigit c then none
    else if areDigits 10 s then some (numberIn 10 s)
    else match colonParts s with
      | p :: q :: ps =>
        if areDigits 10 p && (q :: ps).all isSixtieth then some (inSixties (p :: q :: ps)) else none
      | _ => none
  | [] => none

def int? (s : List Char) : Option Int :=
  let (negative, body) := Text.cutSign s
  (natural? body).map (Text.signed negative)

/-- An exponent, whose sign must be there; a text that is empty is the exponent zero. -/
def exponent? (s : List Char) : Option Int :=
  match s with
  | [] => some 0
  | e :: sign :: ds =>
    if (e = 'e' ∨ e = 'E') ∧ (sign = '-' ∨ sign = '+') ∧ !ds.isEmpty ∧ ds.all isDigit then
      some (Text.signed (sign == '-') (Json.numberOf ds))
    else none
  | _ => none

/-- A number with a point. Its parts before the point may be in places of sixty. -/
def pointed? (negative : Bool) (s : List Char) : Option String :=
  let whole := s.takeWhile (· != '.')
  match s.dropWhile (· != '.') with
  | [] => none
  | _ :: r =>
    let fraction := r.takeWhile fun c => isDigit c || c == '_'
    let rest := r.dropWhile fun c => isDigit c || c == '_'
    let digits := fraction.filter (· != '_')
    let shown (n : Nat) (e : Int) : String :=
      Number.shortestText negative (n * Nat.pow 10 digits.length + Json.numberOf digits)
        (e - digits.length)
    match whole, colonParts whole with
    | c :: _, [p] =>
      if isDigit c && areDigits 10 p then (exponent? rest).map (shown (numberIn 10 p)) else none
    | c :: _, p :: ps =>
      if isDigit c && areDigits 10 p && ps.all isSixtieth && rest.isEmpty then
        some (shown (inSixties (p :: ps)) 0)
      else none
    | _, _ => none

def real? (s : List Char) : Option String :=
  let (negative, body) := Text.cutSign s
  if [".inf", ".Inf", ".INF"].contains (String.ofList body) then
    some (if negative then "-Infinity" else "Infinity")
  else if [".nan", ".NaN", ".NAN"].contains (String.ofList s) then some "NaN"
  else match s with
    | '.' :: c :: _ => if isDigit c then pointed? false ('0' :: s) else none
    | _ => pointed? negative body

def cutDigits? (least most : Nat) (s : List Char) : Option (List Char) :=
  let ds := (s.take most).takeWhile isDigit
  if ds.length < least then none else some (s.drop ds.length)

def cutChar? (c : Char) : List Char → Option (List Char)
  | d :: r => if d = c then some r else none
  | [] => none

def isDate (s : List Char) : Bool :=
  (do
    let r ← cutDigits? 4 4 s
    let r ← cutChar? '-' r
    let r ← cutDigits? 2 2 r
    let r ← cutChar? '-' r
    cutDigits? 2 2 r) == some []

def skipBlanks (s : List Char) : List Char := s.dropWhile fun c => c == ' ' || c == '\t'

def isZone (s : List Char) : Bool :=
  match skipBlanks s with
  | [] => s.isEmpty
  | ['Z'] => true
  | c :: r =>
    (c == '+' || c == '-') &&
      match cutDigits? 1 2 r with
      | some [] => true
      | some (':' :: r) => cutDigits? 2 2 r == some []
      | _ => false

def isMoment (s : List Char) : Bool :=
  let rest? : Option (List Char) := do
    let r ← cutDigits? 4 4 s
    let r ← cutChar? '-' r
    let r ← cutDigits? 1 2 r
    let r ← cutChar? '-' r
    let r ← cutDigits? 1 2 r
    let r ← (match r with
      | 'T' :: r | 't' :: r => some r
      | r => if (skipBlanks r).length < r.length then some (skipBlanks r) else none)
    let r ← cutDigits? 1 2 r
    let r ← cutChar? ':' r
    let r ← cutDigits? 2 2 r
    let r ← cutChar? ':' r
    let r ← cutDigits? 2 2 r
    match r with
    | '.' :: r => some (r.dropWhile isDigit)
    | r => some r
  rest?.any isZone

/-- The value of unquoted text. A point in time is held by its text. -/
def valueOf (s : List Char) : Value :=
  let word := String.ofList s
  if nullWords.contains word then .null
  else if trueWords.contains word then .bool true
  else if falseWords.contains word then .bool false
  else match int? s with
    | some n => .int n
    | none =>
      match real? s with
      | some t => .real t
      | none => .string word

def isText (s : List Char) : Bool :=
  match valueOf s with
  | .string _ => !(markWords.contains (String.ofList s) || isDate s || isMoment s)
  | _ => false

end FileQuery.Yaml
