import FileQuery.Text.Blank
import FileQuery.Text.Case

/-! Words of a condition text. A quote opens a string that runs to the next quote of its kind with no
backslash right before it; blanks inside strings do not part words, and every word has the depth of
parentheses it begins at. -/
set_option autoImplicit false
namespace FileQuery.Where

/-- Where a reading stands: the open quote, if any, and whether a backslash came just before. -/
structure Quoting where
  quote : Option Char := none
  afterBackslash : Bool := false
  deriving DecidableEq, Repr

namespace Quoting

def isQuote (c : Char) : Bool := c == '"' || c == '\''

def inside (q : Quoting) : Bool := q.quote.isSome

def next (q : Quoting) (c : Char) : Quoting :=
  let quote := match q.quote with
    | some d => if c = d && !q.afterBackslash then none else some d
    | none => if isQuote c then some c else none
  ⟨quote, c == '\\'⟩

end Quoting

/-- The depth after a character outside strings; a parenthesis that closes nothing is plain text. -/
def depthAfter (depth : Nat) (c : Char) : Nat :=
  if c = '(' then depth + 1 else if c = ')' then depth - 1 else depth

inductive Piece where
  | word (depth : Nat) (text : List Char)
  | gap (c : Char)
  deriving DecidableEq, Repr

namespace Piece

def text : Piece → List Char
  | word _ s => s
  | gap c => [c]

/-- Puts a character in front of the word that comes next, which then begins at its depth. -/
def prepend (depth : Nat) (c : Char) : List Piece → List Piece
  | word _ s :: ps => word depth (c :: s) :: ps
  | ps => word depth [c] :: ps

def scan (q : Quoting) (depth : Nat) : List Char → List Piece
  | [] => []
  | c :: r =>
    if q.inside then prepend depth c (scan (q.next c) depth r)
    else if Text.isBlank c then gap c :: scan (q.next c) depth r
    else
      let below := depthAfter depth c
      prepend (if c = ')' then below else depth) c (scan (q.next c) below r)

def isKeyword (keyword : String) : Piece → Bool
  | word 0 s => String.ofList (Text.upper s) == keyword
  | _ => false

end Piece

def splitAtPieces (p : Piece → Bool) : List Piece → List (List Char)
  | [] => [[]]
  | x :: xs =>
    if p x then [] :: splitAtPieces p xs
    else match splitAtPieces p xs with
      | [] => [x.text]
      | s :: ss => (x.text ++ s) :: ss

def splitAtKeyword (keyword : String) (s : List Char) : List (List Char) :=
  (splitAtPieces (Piece.isKeyword keyword) (Piece.scan {} 0 s)).map Text.trim

/-- The disjunction of conjunctions that a clause is: its parts between OR, each cut at AND, without
empty conditions. A clause with no condition at all is one condition as it stands. -/
def parseClause (clause : List Char) : List (List (List Char)) :=
  let text := Text.trim clause
  let groups := (splitAtKeyword "OR" text).map fun part =>
    (splitAtKeyword "AND" part).filter (fun c => !c.isEmpty)
  match groups.filter (fun g => !g.isEmpty) with
  | [] => [[text]]
  | gs => gs

/-- Whether the parentheses open at this point all close for the first time at the last character. -/
def closesAtEnd (q : Quoting) (depth : Nat) : List Char → Bool
  | [] => false
  | c :: r =>
    if q.inside || Quoting.isQuote c then closesAtEnd (q.next c) depth r
    else if c = ')' && depth ≤ 1 then r.isEmpty
    else closesAtEnd (q.next c) (depthAfter depth c) r

def isWrapped : List Char → Bool
  | '(' :: r => closesAtEnd {} 1 r
  | _ => false

end FileQuery.Where
