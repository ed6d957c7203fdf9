import FileQuery.Config.Environment
import FileQuery.Config.Settings
import FileQuery.Log
import FileQuery.Session
import FileQuery.Store.Folder
import FileQuery.Toml.Document

/-! The configuration file: which one it is, reading and writing it. Its format follows from its
name. What goes wrong with the file is reported to the log and leaves the defaults. -/
set_option autoImplicit false
namespace FileQuery.Config

open Json (Value)

abbrev Variables := List (String × String)

inductive Format where
  | json
  | toml
  | yaml
  deriving DecidableEq, Repr

def Format.ofPath (path : String) : Format :=
  match String.ofList (Text.lower (Path.suffix path.toList)) with
  | ".toml" => toml
  | ".yaml" | ".yml" => yaml
  | _ => json

def fileNames : List String := ["config.json", "config.toml", "config.yaml", "config.yml"]

/-- What a system tells of files, which it may refuse to, and a user's own folder, if it knows one. -/
structure Files where
  home : Option String
  isThere : String → Except Store.Fault Bool
  holdsData : String → Except Store.Fault Bool
  bytes : String → Except Store.Fault ByteArray

/-- What is at a path of a store, seen by a question that finds nothing where a path cannot be followed
and fails where it cannot be asked for. -/
def Files.asked (s : Store) (path : String) (question : Option Entry → Bool) :
    Except Store.Fault Bool :=
  match s.stat true path with
  | .ok (_, e) => .ok (question (some e))
  | .error (.os (.os .nameTooLong path)) => .error (.os (.os .nameTooLong path))
  | .error _ => .ok (question none)

def Files.ofStore (s : Store) : Files where
  home := some Session.homeFolder
  isThere path := asked s path (·.isSome)
  holdsData path := asked s path fun
    | some (.file bytes _ _) => !bytes.isEmpty
    | e => e.isSome
  bytes := s.bytesAt

/-- A user's own folder, which a variable may name; a name that begins with a tilde is of none. -/
def homeFolder (files : Files) (environment : Variables) : Except Fault String :=
  match (environment.lookup homeVariable).or files.home with
  | none => .error .noHome
  | some home =>
    let bare := (home.toList.reverse.dropWhile (· == '/')).reverse
    if bare.head? = some '~' then .error .noHome
    else .ok (if bare.isEmpty then "/" else String.ofList bare)

def ownPath (home name : String) : String :=
  String.ofList (Path.tidy (Path.join home.toList (".filang/".toList ++ name.toList)))

def firstWithData (files : Files) : List String → Except Store.Fault (Option String)
  | [] => .ok none
  | path :: rest => do
    if ← files.holdsData path then return some path
    firstWithData files rest

def namedPath? (environment : Variables) : Option String :=
  (environment.lookup fileVariable).map fun path => String.ofList (Path.tidy path.toList)

def usualPath (files : Files) (environment : Variables) : Except Fault String := do
  let home ← homeFolder files environment
  let found ← (firstWithData files (fileNames.map (ownPath home))).mapError .store
  return found.getD (ownPath home "config.json")

def filePath (files : Files) (environment : Variables) : Except Fault String :=
  match namedPath? environment with
  | none => usualPath files environment
  | some path => do
    if ← (files.isThere path).mapError .store then return path
    usualPath files environment

def rawText (files : Files) (path : String) : Except String String := do
  let text : Except Store.Fault String := do Store.Encoding.utf8.read (← files.bytes path)
  text.mapError (·.message)

def readDocument (libraries : Libraries) (files : Files) (path : String) :
    Except String Document := do
  let raw ← rawText files path
  let text := String.ofList (Store.unifyBreaks raw.toList)
  match Format.ofPath path with
  | .toml => return { value := .object (← Toml.read raw.toList) }
  | .yaml =>
    let d ← libraries.readYaml text
    return if isFalsy d.value then { value := .object [] } else d
  | .json =>
    let v ← (Json.read text.toList).mapError fun e => e.message text.toList
    return { value := v }

def readOver (libraries : Libraries) (files : Files) (path : String) :
    Except String (Section × OddKeys) := do
  let d ← readDocument libraries files path
  match d.value with
  | .object es => return (merge defaults es, d.odd)
  | v => throw ("'" ++ typeName v ++ "' object has no attribute 'items'")

def loadReport (path cause : String) : LogEntry :=
  ⟨.error, "Error loading config from " ++ path ++ ": " ++ cause, "filang"⟩

def base (libraries : Libraries) (files : Files) (path : String) (isThere : Bool) :
    (Section × OddKeys) × List LogEntry :=
  if isThere then
    match readOver libraries files path with
    | .ok found => (found, [])
    | .error cause => ((defaults, []), [loadReport path cause])
  else ((defaults, []), [])

/-- Applies variables in their order to a configuration, some keys in which may be no texts. A
section with such a key stops a variable that comes to it. -/
def applyOver (odd : OddKeys) : Variables → Section → Except Fault Section
  | [], config => .ok config
  | (name, text) :: rest, config =>
    match settingParts? name with
    | none => applyOver odd rest config
    | some parts => do
      let v ← (valueOfText text).mapError fun e => .invalid e.message
      match (ways parts (.object config)).findSome? fun way => List.lookup way odd with
      | some f => throw f
      | none => applyOver odd rest (assign v parts config)

def locate (files : Files) (environment : Variables) : Except Fault (String × Bool) := do
  let path ← filePath files environment
  return (path, ← (files.isThere path).mapError .store)

/-- The configuration: the defaults, over them the file, over that the variables; with what there is
to report. -/
def load (libraries : Libraries) (files : Files) (environment : Variables) :
    Except Fault Section × List LogEntry :=
  match locate files environment with
  | .error f => (.error f, [])
  | .ok (path, isThere) =>
    let ((config, odd), entries) := base libraries files path isThere
    (applyOver odd environment config, entries)

def documentText (libraries : Libraries) (format : Format) (config : Section) : String :=
  match format with
  | .json => (Value.object config).text { indent := some 2, ascii := true }
  | .toml => libraries.writeToml config
  | .yaml => libraries.writeYaml config

def write (libraries : Libraries) (path : String) (config : Section) : Store.Change := fun s =>
  let folder := String.ofList (Path.folderOf path.toList)
  let (made, s) :=
    if s.isFolder folder then (.ok (), s) else
      Store.ensureFolders s.nesting (Store.pathsAbove folder) s
  match made with
  | .error f => (.error f, s)
  | .ok _ =>
    let text := Text.CodePoints.ofString (documentText libraries (Format.ofPath path) config)
    Store.writeText path text .utf8 s

def save (libraries : Libraries) (environment : Variables) (config : Section) (s : Store) :
    Except Fault String × Store × List LogEntry :=
  match filePath (.ofStore s) environment with
  | .error f => (.error f, s, [])
  | .ok path =>
    match write libraries path config s with
    | (.ok _, s) => (.ok path, s, [⟨.info, "Configuration saved to " ++ path, "filang"⟩])
    | (.error f, s) =>
      (.ok path, s, [⟨.error, "Error saving config to " ++ path ++ ": " ++ f.message, "filang"⟩])

end FileQuery.Config
