import FileQuery.Text.Blank
import FileQuery.Text.Lines

/-! Scripts: one statement a line. Blank lines and lines that begin with two slashes are notes. -/
set_option autoImplicit false
namespace FileQuery

def isNote (line : List Char) : Bool := line.isEmpty || ['/', '/'].isPrefixOf line

def scriptLines (text : String) : List String :=
  (((Text.splitLines text.toList).map Text.trim).filter fun l => !isNote l).map String.ofList

end FileQuery
