import FileQuery.Text.Blank
import FileQuery.Text.Case

/-! Hints about misspelt words. How alike texts are is for a library to say. An error keeps what was
misspelt, and the hint is looked up when the error is put into words. -/
set_option autoImplicit false
namespace FileQuery

/-- A library's choice: the index of the text most like another, if one is alike for so many
percent. -/
abbrev Matcher := String → List String → Int → Option Nat

def closest? (best? : Matcher) (value : String) (choices : List String) (percent : Int := 70) :
    Option String :=
  if value.isEmpty || choices.isEmpty then none
  else (best? (Text.mapString Text.upper value) (choices.map (Text.mapString Text.upper)) percent).bind
    fun i => choices[i]?

/-! A matcher that measures twice the length of the longest common subsequence against the length of
both texts. -/

/-- The next row of the table of common subsequence lengths. `diagonal` and `left` are the entries
before the current column in the row above and in this row. -/
def lcsRow (c : Char) : Nat → Nat → List Char → List Nat → List Nat
  | diagonal, left, b :: bs, above :: row =>
    let here := if c = b then diagonal + 1 else max left above
    here :: lcsRow c above here bs row
  | _, _, _, _ => []

def lcsRows (b : List Char) : List Char → List Nat → List Nat
  | [], row => row
  | c :: r, row => lcsRows b r (lcsRow c 0 0 b row)

def lcsLength (a b : List Char) : Nat :=
  (lcsRows b a (b.map fun _ => 0)).getLastD 0

/-- A ratio of similarity: `common` twice counted out of `total` characters. -/
structure Likeness where
  common : Nat
  total : Nat

namespace Likeness

def between (a b : List Char) : Likeness := ⟨2 * lcsLength a b, a.length + b.length⟩

/-- At least so many percent; two empty texts are alike in full. -/
def reaches (l : Likeness) (percent : Int) : Bool :=
  if l.total = 0 then decide (percent ≤ 100) else decide (percent * l.total ≤ 100 * l.common)

def exceeds (l m : Likeness) : Bool := decide (m.common * l.total < l.common * m.total)

end Likeness

def mostAlike (value : List Char) : Nat → List String → Option (Nat × Likeness)
  | _, [] => none
  | i, c :: cs =>
    let here := Likeness.between value c.toList
    match mostAlike value (i + 1) cs with
    | none => some (i, here)
    | some (j, there) => if there.exceeds here then some (j, there) else some (i, here)

def Matcher.commonest : Matcher := fun value choices percent =>
  (mostAlike value.toList 0 choices).bind fun (i, l) => if l.reaches percent then some i else none

end FileQuery
