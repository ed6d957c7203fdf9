import FileQuery.CommandError
import FileQuery.Json.Basic
import FileQuery.Statement.Basic
import FileQuery.Table.Records

/-! Outcomes of statements: the events reported while one ran, the records it shows, and the
outcomes of the statements it ran in turn. -/
set_option autoImplicit false
namespace FileQuery

inductive Level where
  | info
  | success
  | warning
  | error
  deriving DecidableEq, Repr

namespace Level

def label : Level → String
  | info => "info"
  | success => "success"
  | warning => "warning"
  | error => "error"

end Level

structure Event where
  level : Level
  message : String
  item : Option String := none
  deriving DecidableEq, Repr

def Event.toJson (e : Event) : Json.Value :=
  .object ([("level", .string e.level.label), ("message", .string e.message)] ++
    match e.item with
    | some i => if i.isEmpty then [] else [("item", .string i)]
    | none => [])

structure Outcome where
  statement : Statement
  events : List Event := []
  records : Option (List Record) := none
  children : List Outcome := []
  errorCode : Option Int := none

namespace Outcome

def countEvents (l : Level) (events : List Event) : Nat := events.countP (fun e => e.level == l)

mutual

def exitCode : Outcome → Option Int
  | ⟨_, _, _, children, errorCode⟩ => errorCode.or (firstExitCode children)

def firstExitCode : List Outcome → Option Int
  | [] => none
  | o :: os => o.exitCode.or (firstExitCode os)

end

mutual

def count (l : Level) : Outcome → Nat
  | ⟨_, events, _, children, _⟩ => countEvents l events + countAll l children

def countAll (l : Level) : List Outcome → Nat
  | [] => 0
  | o :: os => o.count l + countAll l os

end

def succeeded (o : Outcome) : Nat := o.count .success

def failed (o : Outcome) : Nat := o.count .error

def isSuccess (o : Outcome) : Bool := o.failed == 0

def messages (o : Outcome) (l : Option Level) : List String :=
  (o.events.filter fun e => l.isNone || l == some e.level).map (·.message)

mutual

def toJson : Outcome → Json.Value
  | ⟨statement, events, records, children, _⟩ =>
    let failures := countEvents .error events + countAll .error children
    .object ([("statement", .string statement.title), ("success", .bool (failures == 0)),
        ("events", .array (events.map Event.toJson))] ++
      (match records with
        | some rs => [("records", .array (rs.map Record.toJson))]
        | none => []) ++
      (if children.isEmpty then [] else [("children", .array (allToJson children))]))

def allToJson : List Outcome → List Json.Value
  | [] => []
  | o :: os => o.toJson :: allToJson os

end

/-- The worst of the outcomes of a run: the first statement that was stopped, else failed
operations. -/
def check (outcomes : List Outcome) : Except CommandError Unit :=
  match outcomes.findSome? (fun o => o.exitCode.map (o.statement.title, ·)) with
  | some (title, code) => .error (.statementFailed title code)
  | none =>
    let failed : Nat := (outcomes.map Outcome.failed).foldr (· + ·) 0
    let succeeded : Nat := (outcomes.map Outcome.succeeded).foldr (· + ·) 0
    if failed = 0 then .ok ()
    else if succeeded = 0 then
      .error (.general s!"{failed} operation(s) failed" ExitCode.general)
    else
      .error (.partialSuccess s!"{failed} operation(s) failed, {succeeded} succeeded"
        succeeded failed)

def renderRecords (rich : Table.Rich) (s : Statement) :
    Option (List Record) → Except Table.RenderError String
  | none => .ok ""
  | some rs =>
    if s.isListing then (if rs.isEmpty then .ok "" else Table.listing rich rs)
    else Table.results rich rs

mutual

/-- The tables of an outcome and of those below it, up to the first that cannot be shown. -/
def render (rich : Table.Rich) : Outcome → String × Option Table.RenderError
  | ⟨statement, _, records, children, _⟩ =>
    match renderRecords rich statement records with
    | .error e => ("", some e)
    | .ok s =>
      let (t, e) := renderAll rich children
      (s ++ t, e)

def renderAll (rich : Table.Rich) : List Outcome → String × Option Table.RenderError
  | [] => ("", none)
  | o :: os =>
    match o.render rich with
    | (s, some e) => (s, some e)
    | (s, none) =>
      let (t, e) := renderAll rich os
      (s ++ t, e)

end

end Outcome

end FileQuery
