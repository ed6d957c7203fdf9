import FileQuery.Json.String
import FileQuery.Text.Blank

/-! Escapes in the text of a WRITE statement: those of a JSON string, control characters standing
for themselves and a quote with no backslash right before it standing for itself. -/
set_option autoImplicit false
namespace FileQuery.Text

/-- Escapes every quote that no backslash stands right before. -/
def guardQuotes (afterBackslash : Bool) : List Char → List Char
  | [] => []
  | c :: r =>
    if c = '"' && !afterBackslash then '\\' :: '"' :: guardQuotes false r
    else c :: guardQuotes (c == '\\') r

def literalOf (s : List Char) : List Char := '"' :: guardQuotes false s ++ ['"']

def isJsonBlank (c : Char) : Bool := c == ' ' || c == '\t' || c == '\n' || c == '\r'

/-- Decodes the escapes of a text; a fault is one of `literalOf` the text. -/
def decodeEscapes (s : List Char) : Except Json.Fault CodePoints := do
  let (points, stop, rest) ← Json.scanString false 0 1 (literalOf s).tail
  let after := rest.dropWhile isJsonBlank
  if after.isEmpty then return points
  else throw ⟨.extraData, stop + (rest.length - after.length)⟩

end FileQuery.Text
