import FileQuery.Execution.Basic
import FileQuery.Store.Transfer
import FileQuery.Text.Escape

/-! Statements about named entries. A wildcard stands for every entry of a kind in the current
folder; a failure on one of them is reported and the others follow. -/
set_option autoImplicit false
namespace FileQuery.Action

/-- Does the work for one name, or for each entry that the wildcard stands for. -/
def forTargets (kind : Kind) (name : String) (work : String → Action Unit) : Action Unit := do
  if name ≠ wildcard then work name
  else
    let records ← listing (← get).session.folder (some kind)
    if records.isEmpty then emit .info ("No " ++ kind.noun ++ "s in the current folder.")
    records.forM fun r =>
      guardItem Store.Fault.isReadable
        (fun cause => emit .error (kind.label ++ " \"" ++ r.name ++ "\": " ++ cause) (some r.name))
        (work r.name)

def missing (kind : Kind) (name : String) : Action Unit :=
  emit .error (kind.label ++ " \"" ++ name ++ "\" does not exist.") (some name)

def create (kind : Kind) (name : String) (settings : Settings) : Action Unit := do
  let path ← resolve [name]
  if ← present path none then
    emit .warning (kind.label ++ " \"" ++ name ++ "\" already exists.")
  else
    match kind with
    | .folder => change (Store.makeFolder path)
    | .file => change (Store.writeText path [] settings.encoding)
    emit .success (kind.label ++ " \"" ++ name ++ "\" created.")

def readFile (name : String) (settings : Settings) : Action Unit :=
  forTargets .file name fun name => do
    let path ← resolve [name]
    if ← present path (some .file) then
      let content ← look fun s => s.readText path settings.encoding
      emit .info ("Contents of \"" ++ name ++ "\":\n" ++ content) (some name)
    else missing .file name

def writeFile (name content : String) (settings : Settings) : Action Unit := do
  let text ← match Text.decodeEscapes content.toList with
    | .ok text => pure text
    | .error _ => do
      emit .warning "Could not decode escape sequences, writing the text as given."
      pure (Text.CodePoints.ofString content)
  change (Store.writeText (← resolve [name]) text settings.encoding)
  emit .success ("File \"" ++ name ++ "\" overwritten.")

def appendFile (name content : String) (settings : Settings) : Action Unit := do
  let text := Text.CodePoints.ofString content
  change (Store.appendText (← resolve [name]) text settings.encoding)
  emit .success ("Text appended to file \"" ++ name ++ "\".")

def editFile (name : String) (settings : Settings) : Action Unit := do
  let r ← get
  match r.editor with
  | none => refuse .noEditor
  | some editor =>
    let path ← resolve [name]
    let (done, step, input) :=
      Editor.edit settings.encoding path r.input { editor, store := r.store }
    modify fun r =>
      { r with
        store := step.store
        editor := some step.editor
        input
        log := r.log ++ step.notes
        shown := r.shown ++ step.shown }
    match done with
    | .error f => throw (.store f)
    | .ok _ =>
      if step.editor.saved then emit .success ("File \"" ++ name ++ "\" saved.")
      else emit .info "Left the editor without saving."

def delete (kind : Kind) (name : String) : Action Unit :=
  forTargets kind name fun name => do
    let path ← resolve [name]
    if ← present path (some kind) then
      match kind with
      | .folder => change (Store.removeTree path)
      | .file => change (Store.removeFile path)
      emit .success (kind.label ++ " \"" ++ name ++ "\" deleted.") (some name)
    else missing kind name

def transferChange (mode : Transfer) (kind : Kind) (source destination : String) : Store.Change :=
  match mode, kind with
  | .move, _ => Store.move source destination
  | .copy, .folder => Store.copyTree source destination
  | .copy, .file => Store.copyFile source destination

def transferred (mode : Transfer) (kind : Kind) (name target : String) : Action Unit :=
  emit .success
    (kind.label ++ " \"" ++ name ++ "\" " ++ mode.done ++ " to \"" ++ target ++ "\".") (some name)

def transfer (mode : Transfer) (kind : Kind) (name target : String) : Action Unit :=
  forTargets kind name fun name => do
    let source ← resolve [name]
    if ← present source (some kind) then
      let destination ← resolve [target, String.ofList (Path.baseName name.toList)]
      change (transferChange mode kind source destination)
      transferred mode kind name target
    else missing kind name

def rename (kind : Kind) (old new : String) : Action Unit := do
  let source ← resolve [old]
  if ← present source (some kind) then
    change (Store.move source (← resolve [new]))
    emit .success ("Renamed \"" ++ old ++ "\" to \"" ++ new ++ "\".")
  else emit .error ("Not found: " ++ old)

def chmod (name mode : String) : Action Unit := do
  let path ← resolve [name]
  if ← present path none then
    let bits := (Text.readOctal? mode.toList).getD 0
    change (Store.setMode path bits.toNat)
    emit .success ("Permissions of \"" ++ name ++ "\" changed to " ++ mode ++ ".")
  else emit .error ("\"" ++ name ++ "\" does not exist.")

/-- The text of one source of a merge; a source that is not there or cannot be read is reported. -/
def mergePart (settings : Settings) (name : String) : Action String := do
  let path ← resolve [name]
  if ← present path (some .file) then
    tryCatch (do return (← look fun s => s.readText path settings.encoding) ++ "\n") fun f =>
      match f with
      | .store e =>
        if e.isReadable then do
          emit .error ("Cannot read file \"" ++ name ++ "\": " ++ e.message) (some name)
          return ""
        else throw f
      | f => throw f
  else
    emit .warning ("File \"" ++ name ++ "\" does not exist, skipping.") (some name)
    return ""

def merge (sources : List String) (destination : String) (settings : Settings) : Action Unit := do
  let parts ← sources.mapM (mergePart settings)
  let text := Text.CodePoints.ofString (String.join parts)
  change (Store.writeText (← resolve [destination]) text settings.encoding)
  emit .success ("Merged files into \"" ++ destination ++ "\".")

end FileQuery.Action
