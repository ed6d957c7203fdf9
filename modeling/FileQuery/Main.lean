import FileQuery.CommandLine.Program
import FileQuery.Libraries.Standard

/-! The program at a terminal. It sees the folder that it is called in as `/work` and the folder of
its settings in `/home/user`. It works on a copy of both, and what has changed there is changed on
the disk at the end. Links on the disk are left alone. -/
set_option autoImplicit false
namespace FileQuery.Disk

def homePlace : Place := ["home", "user"]

def instantOf (t : IO.FS.SystemTime) : Instant := ⟨t.sec * 1000000 + t.nsec.toNat / 1000⟩

partial def addEntries (place : Place) (s : Store) (entries : Array IO.FS.DirEntry) : IO Store :=
  entries.foldlM (fun s e => do
    let place := place ++ [e.fileName]
    let data ← e.path.symlinkMetadata
    match data.type with
    | .dir => addEntries place (s.put place (.folder Store.folderMode)) (← e.path.readDir)
    | .file =>
      let bytes ← IO.FS.readBinFile e.path
      return s.put place (.file bytes Store.fileMode (instantOf data.modified))
    | _ => return s) s

def clock : IO Instant := do
  let (_, path) ← IO.FS.createTempFile
  let data ← path.metadata
  IO.FS.removeFile path
  return instantOf data.modified

def readStore (home : String) : IO Store := do
  let start := [["home"], homePlace, Store.workPlace].foldl
    (fun s p => s.put p (.folder Store.folderMode)) (Store.empty (← clock))
  let s ← addEntries Store.workPlace start (← (← IO.currentDir).readDir)
  let settings : IO.FS.DirEntry := ⟨home, ".filang"⟩
  if ← settings.path.pathExists then addEntries homePlace s #[settings] else return s

def pathOf? (work home : String) : Place → Option String
  | "work" :: r => some (String.intercalate "/" (work :: r))
  | "home" :: "user" :: r => some (String.intercalate "/" (home :: r))
  | _ => none

def rightOf (mode : Nat) : IO.AccessRight :=
  { read := mode.testBit 2, write := mode.testBit 1, execution := mode.testBit 0 }

def rightsOf (mode : Nat) : IO.FileRight :=
  { user := rightOf (mode / 64), group := rightOf (mode / 8), other := rightOf mode }

def sameKind : Entry → Entry → Bool
  | .folder _, .folder _ | .file .., .file .. | .link _, .link _ => true
  | _, _ => false

/-- Removes from the disk what has gone from the store, the deepest first. -/
def removeGone (work home : String) (before after : Store) : IO Unit := do
  let gone := before.entries.filter fun q => !(after.get? q.1).any (sameKind q.2)
  for (place, e) in gone.mergeSort (fun a b => b.1.length ≤ a.1.length) do
    match pathOf? work home place, e with
    | some path, .folder _ => IO.FS.removeDirAll path
    | some path, .file .. => IO.FS.removeFile path
    | _, _ => pure ()

def modeOf? : Entry → Option Nat
  | .folder mode => some mode
  | .file _ mode _ => some mode
  | .link _ => none

def setMode (path : String) (old : Option Entry) (mode : Nat) : IO Unit :=
  if old.bind modeOf? = some mode then pure () else IO.setAccessRights path (rightsOf mode)

def writeChanged (work home : String) (before after : Store) : IO Unit := do
  let changed := after.entries.filter fun q => before.get? q.1 != some q.2
  for (place, e) in changed.mergeSort (fun a b => a.1.length ≤ b.1.length) do
    match pathOf? work home place, e with
    | some path, .folder mode =>
      IO.FS.createDirAll path
      setMode path (before.get? place) mode
    | some path, .file bytes mode _ =>
      IO.FS.writeBinFile path bytes
      setMode path (before.get? place) mode
    | _, _ => pure ()

def variableNames : List String :=
  Config.fileVariable :: Config.defaults.flatMap fun (name, v) =>
    match v with
    | .object es => es.map fun (key, _) => Config.variableMark ++ (name ++ "_" ++ key).toUpper
    | _ => []

def readVariables : IO Config.Variables :=
  variableNames.filterMapM fun name => do
    return (← IO.getEnv name).map fun value => (name, value)

def readInput (s : Store) (args : List String) : IO (List String) := do
  match CommandLine.Request.ofArgs s args with
  | .ok (.shell _) => return (← (← IO.getStdin).lines).toList
  | _ => return []

end FileQuery.Disk

open FileQuery

def main (args : List String) : IO UInt32 := do
  let work := (← IO.currentDir).toString
  let home := (← IO.getEnv "HOME").getD work
  let before ← Disk.readStore home
  let surroundings : CommandLine.Surroundings :=
    { libraries := .standard, environment := ← Disk.readVariables, input := ← Disk.readInput before args }
  let (ending, p) := CommandLine.run before surroundings args
  Disk.removeGone work home before p.store
  Disk.writeChanged work home before p.store
  IO.print p.output
  IO.eprint (p.logger.written ++ p.errors)
  match ending with
  | .exit code => return code.toNat.toUInt32
  | .fault f =>
    IO.eprintln f.message
    return 1
