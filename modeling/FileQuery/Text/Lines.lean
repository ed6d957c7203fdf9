/-! Texts as lines. A line ends at any character that breaks lines, a carriage return and the line
feed after it being one break; nothing follows a break at the end. -/
set_option autoImplicit false
namespace FileQuery.Text

def isBreak (c : Char) : Bool :=
  ['\n', '\r', '\x0b', '\x0c', '\x1c', '\x1d', '\x1e', '\u0085', '\u2028', '\u2029'].contains c

def consLine (c : Char) : List (List Char) → List (List Char)
  | [] => [[c]]
  | l :: ls => (c :: l) :: ls

def splitLines : List Char → List (List Char)
  | [] => []
  | '\r' :: '\n' :: r => [] :: splitLines r
  | c :: r => if isBreak c then [] :: splitLines r else consLine c (splitLines r)

def lines (s : String) : List String := (splitLines s.toList).map String.ofList

end FileQuery.Text
