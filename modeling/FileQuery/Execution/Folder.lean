import FileQuery.Execution.Single

/-! Statements about all entries of a folder, filtered by a clause. -/
set_option autoImplicit false
namespace FileQuery.Action

def list (kind : Option Kind) : Action Unit := do
  let records ← listing (← get).session.folder kind
  if records.isEmpty then
    let what := match kind with
      | some k => k.noun ++ "s"
      | none => "files or folders"
    emit .info ("No " ++ what ++ " in the folder.")
  else emit .info s!"Listed {records.length} entries."
  modify fun r => { r with records := some records }

def count (kind : Option Kind) : Action Unit := do
  let records ← listing (← get).session.folder kind
  let what := match kind with
    | some k => k.label ++ "s"
    | none => "All entries"
  emit .info (what ++ s!": {records.length}")

def sourceRecords (kind : Kind) (source : Source) : Action (List Record) := do
  match source.folder with
  | some folder =>
    if folder.isEmpty then listing (← get).session.folder (some kind)
    else
      let path ← resolve [folder]
      if (← get).store.isFolder path then listing path (some kind)
      else refuse (.pathNotFound folder none)
  | none => listing (← get).session.folder (some kind)

def contents (settings : Settings) (s : Store) : Where.Contents where
  limit := settings.contentLimit
  read := some fun path =>
    match s.readText path settings.encoding with
    | .ok text => .ok text
    | .error f => .error (if f.isReadable then .unreadable f.message else .failed f.message)

def selected (settings : Settings) (source : Source) (order : Option SortSpec)
    (records : List Record) : Action (List Record) := do
  match select (contents settings (← get).store) source.clause order records with
  | .error e => refuse (.unknownSortField e (e.suggestion settings.matcher))
  | .ok (kept, errors) =>
    errors.forM fun e => emit .warning (e.message settings.matcher)
    return kept

def forRecords (report : Record → String → String) (done : Record → Action Unit)
    (work : Record → Action Unit) (records : List Record) : Action Unit :=
  records.forM fun r => do
    let failed ← tryCatch (do work r; return none) fun f =>
      match f with
      | .store e => if e.isRefusal then return some e.message else throw f
      | f => throw f
    match failed with
    | some cause => emit .error (report r cause) (some r.name)
    | none => done r

def deleteAll (kind : Kind) (source : Source) (settings : Settings) : Action Unit := do
  let records ← selected settings source none (← sourceRecords kind source)
  forRecords
    (fun r cause => "Error deleting " ++ kind.noun ++ " \"" ++ r.name ++ "\": " ++ cause)
    (fun r => emit .success (kind.label ++ " \"" ++ r.name ++ "\" deleted.") (some r.name))
    (fun r =>
      change (if r.isFolder then Store.removeTree r.path else Store.removeFile r.path))
    records

def transferAll (mode : Transfer) (kind : Kind) (target : String) (source : Source)
    (settings : Settings) : Action Unit := do
  let records ← selected settings source none (← sourceRecords kind source)
  forRecords
    (fun r cause =>
      "Error: " ++ kind.noun ++ " \"" ++ r.name ++ "\" not " ++ mode.done ++ ": " ++ cause)
    (fun r => transferred mode kind r.name target)
    (fun r => do change (transferChange mode r.kind r.path (← resolve [target, r.name])))
    records

def selectRecords (kind : Kind) (source : Source) (order : Option SortSpec) (into : Option String)
    (settings : Settings) : Action Unit := do
  let records ← selected settings source order (← sourceRecords kind source)
  match into with
  | none =>
    modify fun r => { r with records := some records }
    emit .info s!"Query matched {records.length} entries."
  | some path =>
    let style ← (match settings.style with
      | .ok style => pure style
      | .error f => throw f : Action Report.Style)
    match Report.render style path records with
    | .error cause => throw (.illTyped cause)
    | .ok text =>
      change (Store.writeText (← resolve [path]) ((← get).store.pointsOf text) .utf8)
      emit .success ("Results saved to: " ++ path)

end FileQuery.Action
