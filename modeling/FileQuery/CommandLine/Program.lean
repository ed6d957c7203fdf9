import FileQuery.CommandLine.Request
import FileQuery.Config.File
import FileQuery.Logger
import FileQuery.Shell

/-! The program: what a request does to the store, what it prints and how it ends. -/
set_option autoImplicit false
namespace FileQuery

namespace CommandLine

structure Surroundings where
  libraries : Libraries
  environment : Config.Variables := []
  input : List String := []

structure Process where
  store : Store
  logger : Logger := {}
  output : String := ""
  errors : String := ""

/-- A part of a run; a fault stops it and keeps what was done. -/
abbrev Work := ExceptT Fault (StateM Process)

namespace Work

def print (text : String) : Work Unit := modify fun p => { p with output := p.output ++ text }

def printLine (text : String) : Work Unit := print (text ++ "\n")

def note (entries : List LogEntry) : Work Unit :=
  modify fun p => { p with logger := p.logger.writeAll entries }

def loadConfig (s : Surroundings) : Work Config.Section := do
  let (config, entries) := Config.load s.libraries (.ofStore (← get).store) s.environment
  note entries
  match config with
  | .ok config => return config
  | .error f => throw f

def configure (config : Config.Section) : Work Unit := do
  let (done, logger, _) := (← get).logger.configure config
  modify fun p => { p with logger }
  match done with
  | .ok _ => return ()
  | .error f => throw f

def startSession (config : Config.Section) (folder : Option String) : Work Session :=
  match folder with
  | some folder => return Session.start folder
  | none => do
    match Config.startFolder config with
    | .ok start => return Session.start (start.getD Store.workFolder)
    | .error f => throw f

def startWorld (s : Surroundings) (config : Config.Section) (folder : Option String) :
    Work (Settings × World) := do
  let session ← startSession config folder
  match Config.toSettings s.libraries config with
  | .ok settings => return (settings, { store := (← get).store, session })
  | .error f => throw f

def settle (w : World) : Work Unit := do
  note w.log
  modify fun p => { p with store := w.store }

def display (s : Surroundings) (json : Bool) (o : Outcome) : Work Unit :=
  if json then printLine o.toJson.line
  else do
    let (shown, e) := o.render s.libraries.rich
    print shown
    match e with
    | none => return ()
    | some e => throw (.table e)

def runStatements (s : Surroundings) (settings : Settings) (json : Bool) :
    List String → World → Work (List Outcome)
  | [], _ => return []
  | line :: rest, w => do
    let (result, w) := execute settings line w
    settle w
    match result with
    | .error f => throw f
    | .ok o =>
      display s json o
      let os ← runStatements s settings json rest { w with log := [] }
      return o :: os

def runLines (s : Surroundings) (lines : List String) (folder : Option String) (json : Bool) :
    Work Unit := do
  let config ← loadConfig s
  configure config
  let (settings, world) ← startWorld s config folder
  let outcomes ← runStatements s settings json lines world
  match Outcome.check outcomes with
  | .ok _ => return ()
  | .error e => throw (.command e)

def readScript (path : String) : Work (List String) := do
  match (← get).store.readText path .utf8 with
  | .ok text => return scriptLines text
  | .error f => throw (.store f)

def runScript (s : Surroundings) (path : String) (folder : Option String) (json : Bool) :
    Work Unit := do
  let lines ← readScript path
  runLines s lines folder json

def banner : String :=
  "\n╔═══════════════════════════════════════════════════════════════════╗\n" ++
  "║                     filang Interactive Shell                      ║\n" ++
  "║                                                                   ║\n" ++
  "║  Query:  SELECT FILES WHERE size > 1024 ORDER BY size DESC        ║\n" ++
  "║  Files:  CREATE, READ, WRITE, UPDATE, EDIT, DELETE, MERGE         ║\n" ++
  "║  Move:   MOVE, COPY, RENAME, CHMOD                                ║\n" ++
  "║  Folders: USE \"<dir>\", DROP, LIST *, COUNT ALL                    ║\n" ++
  "║  Scripts: LOAD \"<script>.fql\"                                     ║\n" ++
  "║  Press Tab to complete commands, 'exit' or Ctrl+D to quit        ║\n" ++
  "╚═══════════════════════════════════════════════════════════════════╝\n\n"

def runShell (s : Surroundings) (folder : Option String) : Work Unit := do
  let config ← loadConfig s
  let (settings, world) ← startWorld s config folder
  print banner
  let (stopped, state) :=
    Shell.run s.libraries.rich settings { world with editor := some {}, input := s.input }
  print (String.join (state.world.shown.map Shown.text))
  settle state.world
  match stopped with
  | none => return ()
  | some f => throw f

def showConfig (s : Surroundings) (pretty : Bool) : Work Unit := do
  let config := Json.Value.object (← loadConfig s)
  printLine (if pretty then config.pretty else config.line)

def configFile (s : Surroundings) : Work (String × Bool) := do
  match Config.locate (.ofStore (← get).store) s.environment with
  | .ok found => return found
  | .error f => throw f

def showConfigPath (s : Surroundings) : Work Unit := do
  let (path, _) ← configFile s
  printLine ((Json.Value.object [("config_path", .string path)]).text { ascii := true })

def initConfig (s : Surroundings) (force : Bool) : Work Unit := do
  let (path, isThere) ← configFile s
  if isThere && !force then
    printLine ("Configuration already exists at " ++ path ++ ". Use --force to overwrite.")
  else
    let (written, store, entries) :=
      Config.save s.libraries s.environment Config.defaults (← get).store
    modify fun p => { p with store }
    note entries
    match written with
    | .ok path => printLine ("Default configuration written to " ++ path ++ ".")
    | .error f => throw f

end Work

/-- How a run ends: with a code, or stopped by a fault that nothing reports. -/
inductive Ending where
  | exit (code : Int)
  | fault (f : Fault)
  deriving DecidableEq, Repr

namespace Process

def printError (p : Process) (text : String) : Process := { p with errors := p.errors ++ text }

def report (message : Fault → String) (code : Fault → Int) (p : Process) (work : Work Unit) :
    Ending × Process :=
  match work.run.run p with
  | (.ok _, p) => (.exit ExitCode.success, p)
  | (.error f, p) => (.exit (code f), p.printError (message f ++ "\n"))

def bare (p : Process) (work : Work Unit) : Ending × Process :=
  match work.run.run p with
  | (.ok _, p) => (.exit ExitCode.success, p)
  | (.error f, p) => (.fault f, p)

def commandReport : Fault → String
  | .command e => "Error: " ++ e.message
  | f => "Command failed: " ++ f.message

def shellReport (f : Fault) : String := "Error running shell: " ++ f.message

/-- Runs the shell once the log is set up; only then faults are reported. -/
def shell (p : Process) (s : Surroundings) (folder : Option String) : Ending × Process :=
  match p.bare (do Work.configure (← Work.loadConfig s)) with
  | (.fault f, p) => (.fault f, p)
  | (.exit _, p) => p.report shellReport (fun _ => ExitCode.general) (Work.runShell s folder)

def version : String := "filang, version 0.3.0\n"

def answer (p : Process) (s : Surroundings) : Request → Ending × Process
  | .help page => (.exit ExitCode.success, { p with output := p.output ++ page.help })
  | .version => (.exit ExitCode.success, { p with output := p.output ++ version })
  | .bare page => (.exit ExitCode.usage, p.printError page.help)
  | .exec lines folder json =>
    p.report commandReport Fault.exitCode (Work.runLines s lines folder json)
  | .run path folder json =>
    p.report commandReport Fault.exitCode (Work.runScript s path folder json)
  | .shell folder => p.shell s folder
  | .showConfig pretty => p.bare (Work.showConfig s pretty)
  | .configPath => p.bare (Work.showConfigPath s)
  | .initConfig force => p.bare (Work.initConfig s force)

end Process

def run (store : Store) (s : Surroundings) (args : List String) : Ending × Process :=
  let p : Process := { store }
  match Request.ofArgs store args with
  | .ok request => p.answer s request
  | .error (.usage e) => (.exit ExitCode.usage, p.printError e.text)
  | .error (.fault f) => (.fault f, p)

end CommandLine

end FileQuery
