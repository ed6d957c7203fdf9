import FileQuery.Selection
import FileQuery.Statement.Error

/-! Exit codes of the program. -/
set_option autoImplicit false
namespace FileQuery.ExitCode

def success : Int := 0

def general : Int := 1

def usage : Int := 2

def malformed : Int := 64

def pathNotFound : Int := 65

def forbidden : Int := 67

def badData : Int := 70

def partialSuccess : Int := 71

def interrupted : Int := 130

def ofException : String → Int
  | "FileNotFoundError" | "NotADirectoryError" => pathNotFound
  | "PermissionError" => forbidden
  | "ValueError" | "JSONDecodeError" => badData
  | "KeyboardInterrupt" => interrupted
  | _ => general

end FileQuery.ExitCode

/-! Errors that stop a statement or a run, each with its exit code. -/

namespace FileQuery

inductive CommandError where
  | general (message : String) (code : Int)
  | malformed (message : String) (suggestion : Option String)
  | pathNotFound (path : String) (message : Option String)
  | condition (condition reason : String)
  | unknownSortField (e : UnknownSortField) (suggestion : Option String)
  | partialSuccess (message : String) (succeeded failed : Int)
  deriving DecidableEq, Repr

namespace CommandError

def exceptionName : CommandError → String
  | general .. => "CommandError"
  | malformed .. => "DslSyntaxError"
  | pathNotFound .. => "PathNotFoundError"
  | condition .. => "ConditionError"
  | unknownSortField .. => "UnknownSortFieldError"
  | partialSuccess .. => "PartialSuccessError"

def ofSyntax (e : SyntaxError) : CommandError := malformed e.message none

def noFile (name : String) : CommandError :=
  pathNotFound name (some ("File \"" ++ name ++ "\" does not exist."))

def noFolder (name : String) : CommandError :=
  pathNotFound name (some ("No folder \"" ++ name ++ "\""))

def atRoot (path : String) : CommandError := pathNotFound path (some "Already at the root directory.")

def noEditor : CommandError := general "EDIT FILE needs the interactive shell." ExitCode.general

def statementFailed (title : String) (code : Int) : CommandError :=
  general ("Statement " ++ title ++ " failed") code

def message : CommandError → String
  | general message _ => message
  | malformed message _ => message
  | pathNotFound path message =>
    match message with
    | some m => if m.isEmpty then "Path does not exist: " ++ path else m
    | none => "Path does not exist: " ++ path
  | condition c reason => "Condition '" ++ c ++ "' failed: " ++ reason
  | unknownSortField e suggestion => e.message suggestion
  | partialSuccess message _ _ => message

def exitCode : CommandError → Int
  | general _ code => code
  | malformed _ _ => ExitCode.malformed
  | pathNotFound _ _ => ExitCode.pathNotFound
  | condition _ _ => ExitCode.badData
  | unknownSortField _ _ => ExitCode.badData
  | partialSuccess _ _ _ => ExitCode.partialSuccess

end CommandError

end FileQuery
