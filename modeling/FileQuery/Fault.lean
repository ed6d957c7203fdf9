import FileQuery.CommandError
import FileQuery.Store.Fault
import FileQuery.Table.Records

/-! Everything that may stop a run: an error of a statement, a fault of the store, or a setting that
is not what its use asks for. -/
set_option autoImplicit false
namespace FileQuery

inductive Fault where
  | command (e : CommandError)
  | store (f : Store.Fault)
  | table (e : Table.RenderError)
  | illTyped (message : String)
  | noMember (message : String)
  | invalid (message : String)
  | noHome
  deriving DecidableEq, Repr

namespace Fault

def message : Fault → String
  | command e => e.message
  | store f => f.message
  | table e => e.message
  | illTyped message => message
  | noMember message => message
  | invalid message => message
  | noHome => "Could not determine home directory."

def exceptionName : Fault → String
  | command e => e.exceptionName
  | store f => f.exceptionName
  | table e => e.exceptionName
  | illTyped _ => "TypeError"
  | noMember _ => "AttributeError"
  | invalid _ => "ValueError"
  | noHome => "RuntimeError"

def exitCode : Fault → Int
  | command e => e.exitCode
  | f => ExitCode.ofException f.exceptionName

end Fault

end FileQuery
