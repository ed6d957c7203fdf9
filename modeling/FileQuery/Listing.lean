import FileQuery.Fault
import FileQuery.Log
import FileQuery.Store.Folder

/-! The entries of a folder as records, in the order of their names. A link counts as what it leads
to; an entry that cannot be looked at is skipped and noted in the log. A time that is no date stops
the listing. -/
set_option autoImplicit false
namespace FileQuery

def Store.status? (s : Store) (place : Place) : Entry → Option (Kind × Stat)
  | .folder mode =>
    let times := s.timesAt place
    some (.folder,
      { mode, size := 0, modified := .ofInstant times.modified, changed := .ofInstant times.changed })
  | .file bytes mode modified =>
    let changed := (s.timesAt place).changed
    some (.file,
      { mode, size := bytes.size, modified := .ofInstant modified, changed := .ofInstant changed })
  | .link _ => none

def recordAt (s : Store) (path : String) : Except Store.Fault Record := do
  let (place, e) ← s.stat true path
  match s.status? place e with
  | some (kind, status) => (Record.ofStat path kind status).mapError .ofStamp
  | none => throw (.os (.os .tooManyLinks path))

def skipped (name : String) (f : Store.Fault) : LogEntry :=
  { level := .warning
    message := "Skipping '" ++ name ++ "': " ++ f.message
    source := "filang.enumerator" }

/-- Why a folder is not listed, and what was noted before. -/
structure Unlisted where
  fault : Fault
  notes : List LogEntry := []
  deriving DecidableEq, Repr

def recordsOf (s : Store) (folder : String) :
    List String → Except Unlisted (List Record × List LogEntry)
  | [] => .ok ([], [])
  | name :: rest =>
    match recordAt s (String.ofList (Path.join folder.toList name.toList)) with
    | .ok r => (recordsOf s folder rest).map fun (records, notes) => (r :: records, notes)
    | .error f =>
      if f.isRefusal then
        match recordsOf s folder rest with
        | .ok (records, notes) => .ok (records, skipped name f :: notes)
        | .error u => .error { u with notes := skipped name f :: u.notes }
      else .error { fault := .store f }

def listFolder (s : Store) (folder : String) (kind : Option Kind) :
    Except Unlisted (List Record × List LogEntry) :=
  match s.namesAt folder with
  | .error _ => .error { fault := .command (.pathNotFound folder none) }
  | .ok names =>
    (recordsOf s folder names).map fun (records, notes) =>
      (records.filter (fun r => kind.isNone || kind == some r.kind), notes)

end FileQuery
