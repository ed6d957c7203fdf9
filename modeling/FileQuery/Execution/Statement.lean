import FileQuery.Execution.Folder
import FileQuery.Script
import FileQuery.Statement.Parser

/-! Running statements. A statement that is stopped by an error, or by the store, ends in one more
event; other faults stop the whole run. A script runs line by line, and only so many scripts may be
open at once. -/
set_option autoImplicit false
namespace FileQuery

abbrev Ran := Except Fault Outcome × World

namespace Action

def runLine (execute : String → World → Ran) (line : String) : Action Unit := do
  emit .info ("Executing: " ++ line)
  let (result, world) := execute line (← get).toWorld
  modify fun r => { r with toWorld := world }
  match result with
  | .ok o => modify fun r => { r with children := r.children ++ [o] }
  | .error f => throw f

def load (settings : Settings) (execute? : Option (String → World → Ran)) (name : String) :
    Action Unit := do
  let path ← resolve [name]
  if !(← present path (some .file)) then refuse (.noFile name)
  match settings.loadLimit, execute? with
  | .error cause, _ => throw (.illTyped cause)
  | .ok limit, none => refuse (.ofSyntax (.loadTooDeep limit.text))
  | .ok _, some execute =>
    let text ← look fun s => s.readText path settings.encoding
    (scriptLines text).forM (runLine execute)

def use (folder : String) : Action Unit := do
  let r ← get
  match r.session.use r.store folder with
  | .error e => refuse e
  | .ok session =>
    modify fun r => { r with session }
    emit .info ("Working folder changed to \"" ++ folder ++ "\".")

def drop : Action Unit := do
  match (← get).session.drop with
  | .error e => refuse e
  | .ok session =>
    modify fun r => { r with session }
    emit .info "Moved to the parent folder."

def unrecognized (text : String) (reason : SyntaxError) (suggestion : Option String) : String :=
  "Unrecognized statement: " ++ text ++ " (" ++ reason.message ++ ")" ++
    match suggestion with
    | some s => if s.isEmpty then "" else ". Did you mean \"" ++ s ++ "\"?"
    | none => ""

def perform (settings : Settings) (execute? : Option (String → World → Ran)) :
    Statement → Action Unit
  | .load name => load settings execute? name
  | .create kind name => create kind name settings
  | .read name => readFile name settings
  | .edit name => editFile name settings
  | .write name content => writeFile name content settings
  | .append name content => appendFile name content settings
  | .delete kind name => delete kind name
  | .use folder => use folder
  | .drop => drop
  | .list kind => list kind
  | .count kind => count kind
  | .transfer mode kind name target => transfer mode kind name target
  | .rename kind old new => rename kind old new
  | .chmod name mode => chmod name mode
  | .merge sources destination => merge sources destination settings
  | .deleteAll kind source => deleteAll kind source settings
  | .transferAll mode kind target source => transferAll mode kind target source settings
  | .select kind source order into => selectRecords kind source order into settings
  | .unknown text reason =>
    let suggestion := suggestPhrase settings.matcher text.toList
    refuse (.malformed (unrecognized text reason suggestion) suggestion)

end Action

namespace Statement

def outcome (s : Statement) (r : Run) (code : Option Int) : Outcome where
  statement := s
  events := r.events
  records := r.records
  children := r.children
  errorCode := code

def run (settings : Settings) (execute? : Option (String → World → Ran)) (s : Statement)
    (w : World) : Ran :=
  let stopped (r : Run) (message : String) (code : Option Int) : Ran :=
    let (_, r) := (Action.emit .error message).run.run r
    (.ok (s.outcome r code), r.toWorld)
  match (Action.perform settings execute? s).run.run { toWorld := w } with
  | (.ok _, r) => (.ok (s.outcome r none), r.toWorld)
  | (.error (.command e), r) => stopped r e.message (some e.exitCode)
  | (.error (.store f), r) =>
    if f.isReadable then stopped r ("Operation failed: " ++ f.message) none
    else (.error (.store f), r.toWorld)
  | (.error f, r) => (.error f, r.toWorld)

/-- Runs a line, below which so many scripts may still be opened. -/
def executeBelow (settings : Settings) : Nat → String → World → Ran
  | 0, line => run settings none (parse line)
  | n + 1, line => run settings (some (executeBelow settings n)) (parse line)

end Statement

def execute (settings : Settings) (line : String) (w : World) : Ran :=
  Statement.executeBelow settings settings.levels line w

end FileQuery
