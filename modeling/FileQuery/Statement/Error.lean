/-! Why a line is no statement. -/
set_option autoImplicit false
namespace FileQuery

inductive SyntaxError where
  | unterminatedString (column : Nat)
  | noCommand
  | unknownCommand (verb : String)
  | expectedKeyword (keywords : List String) (got : Option String)
  | expectedString (what : String) (got : Option String)
  | wildcardRefused (what : String)
  | emptyString (what : String)
  | unexpectedToken (value : String) (column : Nat)
  | noCondition
  | noSortField
  | noMergeSource
  | notAScript
  | invalidMode (mode : String)
  | loadTooDeep (limit : String)
  deriving DecidableEq, Repr

namespace SyntaxError

def found : Option String → String
  | some value => "'" ++ value ++ "'"
  | none => "end of line"

def message : SyntaxError → String
  | unterminatedString column => s!"Unterminated string starting at column {column}"
  | noCommand => "Statement must start with a command"
  | unknownCommand verb => "Unknown command: " ++ verb
  | expectedKeyword keywords got =>
    "Expected " ++ String.intercalate " or " keywords ++ ", got " ++ found got
  | expectedString what got => "Expected quoted " ++ what ++ ", got " ++ found got
  | wildcardRefused what => "Wildcard \"*\" is not allowed for " ++ what
  | emptyString what => "Empty " ++ what
  | unexpectedToken value column => "Unexpected '" ++ value ++ s!"' at column {column}"
  | noCondition => "WHERE requires a condition"
  | noSortField => "ORDER BY requires a field name"
  | noMergeSource => "MERGE requires at least one source file"
  | notAScript => "LOAD expects a .fql script"
  | invalidMode mode => "Invalid permission mode '" ++ mode ++ "', expected octal like 644"
  | loadTooDeep limit => "LOAD nested deeper than " ++ limit ++ " levels."

end SyntaxError

end FileQuery
