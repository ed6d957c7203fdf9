import FileQuery.Outcome

/-! The log: what is reported while statements run, by the part of the program that reports it. -/
set_option autoImplicit false
namespace FileQuery

inductive LogLevel where
  | info
  | success
  | warning
  | error
  | critical
  deriving DecidableEq, Repr

namespace LogLevel

def number : LogLevel → Int
  | info => 20
  | success => 25
  | warning => 30
  | error => 40
  | critical => 50

def label : LogLevel → String
  | info => "INFO"
  | success => "SUCCESS"
  | warning => "WARNING"
  | error => "ERROR"
  | critical => "CRITICAL"

def ofEvent : Level → LogLevel
  | .info => info
  | .success => success
  | .warning => warning
  | .error => error

end LogLevel

structure LogEntry where
  level : LogLevel
  message : String
  source : String := "filang"
  deriving DecidableEq, Repr

end FileQuery
