import FileQuery.CommandLine.Scan
import FileQuery.Fault
import FileQuery.Store.Walk
import FileQuery.Text.Case

/-! What arguments ask of the program. Help and the version go before everything else that is asked;
then the options are looked at in their order, then the operands. -/
set_option autoImplicit false
namespace FileQuery.CommandLine

inductive Request where
  | help (page : Page)
  | version
  /-- A group without a command shows its help, as a misuse. -/
  | bare (page : Page)
  | exec (statements : List String) (folder : Option String) (json : Bool)
  | run (script : String) (folder : Option String) (json : Bool)
  | shell (folder : Option String)
  | showConfig (pretty : Bool)
  | configPath
  | initConfig (force : Bool)
  deriving DecidableEq, Repr

inductive Refusal where
  | usage (e : UsageError)
  | fault (f : Fault)
  deriving DecidableEq, Repr

abbrev Asked := Except Refusal

def refuse {α : Type} (page : Page) (misuse : Misuse) : Asked α := .error (.usage ⟨page, misuse⟩)

def kindAt (store : Store) (path : String) : Asked (Option Entry) :=
  match store.stat true path with
  | .ok (_, e) => .ok (some e)
  | .error .nulInPath => .error (.fault (.store .nulInPath))
  | .error _ => .ok none

def folderOf (store : Store) (page : Page) (s : Scanned) : Asked (Option String) := do
  match s.value? .directory with
  | none => return none
  | some path =>
    match ← kindAt store path with
    | none => refuse page (.noSuchFolder path)
    | some (.file ..) => refuse page (.notFolder path)
    | some _ => return some path

def refuseExtra (page : Page) (operands : List String) : Asked Unit :=
  if operands.isEmpty then .ok () else refuse page (.extraOperands operands)

/-- What is asked by options that go before everything else; the first one counts. -/
def eager? (page : Page) (s : Scanned) : Option Request :=
  s.given.findSome? fun g =>
    match g.switch with
    | .help => some (.help page)
    | .version => some .version
    | _ => none

def scriptExtension : String := ".fql"

def scriptOf (store : Store) (s : Scanned) : Asked (String × List String) :=
  match s.operands with
  | [] => refuse .run (.operandMissing "SCRIPT")
  | path :: extra => do
    match ← kindAt store path with
    | none => refuse .run (.noSuchScript path)
    | some (.folder _) => refuse .run (.notScript path)
    | some _ => return (path, extra)

def hasScriptExtension (path : String) : Bool :=
  String.ofList (Text.lower (Path.suffix path.toList)) == scriptExtension

def ofScanned (store : Store) (page : Page) (s : Scanned) : Asked Request := do
  match page with
  | .exec =>
    let folder ← folderOf store page s
    if s.operands.isEmpty then refuse page (.operandMissing "STATEMENTS...")
    else return .exec s.operands folder (s.has .json)
  | .run =>
    let folder ← folderOf store page s
    let (script, extra) ← scriptOf store s
    refuseExtra page extra
    if hasScriptExtension script then return .run script folder (s.has .json)
    else refuse page .wrongExtension
  | .shell =>
    let folder ← folderOf store page s
    refuseExtra page s.operands
    return .shell folder
  | .showConfig =>
    refuseExtra page s.operands
    return .showConfig (s.has .pretty)
  | .initConfig =>
    refuseExtra page s.operands
    return .initConfig (s.has .force)
  | page =>
    refuseExtra page s.operands
    return .configPath

def scanned (page : Page) (args : List String) : Asked Scanned :=
  (scan page (args.length + 1) args).mapError fun e => .usage ⟨page, e⟩

def ofCommand (store : Store) (page : Page) (args : List String) : Asked Request := do
  let s ← scanned page args
  match eager? page s with
  | some r => return r
  | none => ofScanned store page s

/-- An operand that names no command; one that looks like an option is taken for one first. -/
def unknownCommand (page : Page) (name : String) (args : List String) : Asked Request := do
  let misuse := Misuse.noSuchCommand name (resembling name (page.commands.map (·.1)))
  if name.toList.head? = some '-' then
    let s ← scanned page (name :: args)
    match eager? page s with
    | some r => return r
    | none => refuse page misuse
  else refuse page misuse

def ofGroup (page : Page) (empty : Asked Request)
    (next : Page → List String → Asked Request) (args : List String) : Asked Request := do
  let s ← scanned page args
  match eager? page s, s.operands with
  | some r, _ => return r
  | none, [] => empty
  | none, name :: rest =>
    match page.commands.lookup name with
    | some q => next q rest
    | none => unknownCommand page name rest

/-- The request of arguments. Without a command the shell is asked for. -/
def Request.ofArgs (store : Store) (args : List String) : Asked Request :=
  let inner (page : Page) (args : List String) : Asked Request :=
    match page with
    | .config =>
      if args.isEmpty then .ok (.bare page)
      else ofGroup page (refuse page .commandMissing) (ofCommand store) args
    | page => ofCommand store page args
  ofGroup .program (.ok (.shell none)) inner args

end FileQuery.CommandLine
