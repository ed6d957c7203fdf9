import FileQuery.Editor
import FileQuery.Execution.Settings
import FileQuery.Listing
import FileQuery.Session

/-! A statement under way: what it works on, and what it has reported so far. -/
set_option autoImplicit false
namespace FileQuery

/-- What statements work on. There is an editor only in an interactive shell; it reads the typed
lines that the shell has not taken. -/
structure World where
  store : Store
  session : Session
  log : List LogEntry := []
  editor : Option Editor := none
  input : List String := []
  shown : List Shown := []

structure Run extends World where
  events : List Event := []
  records : Option (List Record) := none
  children : List Outcome := []

/-- A part of a statement's work; a fault stops it and keeps what was done. -/
abbrev Action := ExceptT Fault (StateM Run)

namespace Action

def emit (level : Level) (message : String) (item : Option String := none) : Action Unit :=
  modify fun r =>
    { r with
      events := r.events ++ [{ level, message, item }]
      log := r.log ++ [{ level := .ofEvent level, message }] }

def note (entries : List LogEntry) : Action Unit := modify fun r => { r with log := r.log ++ entries }

def refuse {α : Type} (e : CommandError) : Action α := throw (.command e)

def look {α : Type} (f : Store → Except Store.Fault α) : Action α := do
  match f (← get).store with
  | .ok a => return a
  | .error e => throw (.store e)

def change (c : Store.Change) : Action Unit := do
  let (done, store) := c (← get).store
  modify fun r => { r with store }
  match done with
  | .ok _ => return ()
  | .error e => throw (.store e)

def resolve (parts : List String) : Action String := return (← get).session.resolve parts

def present (path : String) (kind : Option Kind) : Action Bool := do
  let s := (← get).store
  match kind with
  | some .file => return s.isFile path
  | some .folder => return s.isFolder path
  | none => return s.isPresent path

def listing (folder : String) (kind : Option Kind) : Action (List Record) := do
  match listFolder (← get).store folder kind with
  | .ok (records, notes) =>
    note notes
    return records
  | .error u =>
    note u.notes
    throw u.fault

/-- Goes on after a fault that concerns one item only. -/
def guardItem (concerns : Store.Fault → Bool) (report : String → Action Unit) (work : Action Unit) :
    Action Unit :=
  tryCatch work fun f =>
    match f with
    | .store e => if concerns e then report e.message else throw f
    | f => throw f

end Action

end FileQuery
