import FileQuery.Log
import FileQuery.Store.Text
import FileQuery.Text.Blank
import FileQuery.Text.Case
import FileQuery.Text.Lines

/-! A line editor. What is typed is put at the end of the buffer; a line with a colon in front is a
command. -/
set_option autoImplicit false
namespace FileQuery

namespace Editor

inductive Mode where
  | insert
  | command
  | closed
  deriving DecidableEq, Repr

def Mode.label : Mode → String
  | insert => "insert"
  | command => "command"
  | closed => "closed"

inductive Command where
  | save
  | exit
  | load (file : String)
  | print
  | undo
  | unknown (text : String)
  deriving DecidableEq, Repr

/-- The command in a line behind its colon; what follows the name of one only counts for a load. -/
def Command.ofText (text : List Char) : Command :=
  let text := Text.trim text
  let (name, rest) := Text.cutWord text
  match String.ofList (Text.lower name) with
  | "save" => save
  | "exit" => exit
  | "load" => load (String.ofList (Text.trimStart rest))
  | "show" => print
  | "undo" => undo
  | _ => unknown (String.ofList text)

end Editor

structure Editor where
  buffer : List String := []
  mode : Editor.Mode := .closed
  path : String := ""
  saved : Bool := false
  deriving DecidableEq, Repr

namespace Editor

def margin (n : Nat) : String :=
  let digits := toString n
  String.ofList (List.replicate (4 - digits.length) ' ') ++ digits ++ " "

def prompt (e : Editor) : String := margin (e.buffer.length + 1)

def greeting (e : Editor) : String :=
  "-- INSERT -- editing " ++ String.ofList (Path.baseName e.path.toList) ++
    s!" ({e.buffer.length} lines). Type :save to write, :exit to quit."

def numbered (e : Editor) : List String := e.buffer.mapIdx fun i line => margin (i + 1) ++ line

/-- Opens a file, or a new one. If it cannot be read the editor keeps its mode. -/
def openFile (e : Editor) (s : Store) (encoding : Store.Encoding) (path : String) :
    Except Store.Fault Unit × Editor :=
  let fresh : Editor := { e with path, saved := false, buffer := [] }
  if s.isFile path then
    match s.readText path encoding with
    | .ok text => (.ok (), { fresh with buffer := Text.lines text, mode := .insert })
    | .error f => (.error f, fresh)
  else (.ok (), { fresh with mode := .insert })

end Editor

inductive Shown where
  | line (text : String)
  | prompt (text : String)
  | block (text : String)
  deriving DecidableEq, Repr

def Shown.text : Shown → String
  | line text => text ++ "\n"
  | prompt text => text
  | block text => text

namespace Editor

structure Step where
  editor : Editor
  store : Store
  notes : List LogEntry := []
  shown : List Shown := []

def Step.print (t : Step) (shown : List Shown) : Step := { t with shown := t.shown ++ shown }

def Step.note (t : Step) (level : LogLevel) (message : String) : Step :=
  { t with notes := t.notes ++ [{ level, message }] }

def loadFile (encoding : Store.Encoding) (file : String) (t : Step) :
    Except Store.Fault Unit × Step :=
  let usage := t.note .warning "Usage: :load <file>"
  if (Text.words file.toList).length ≠ 1 then (.ok (), usage)
  else
    let source := Path.join (Path.parent t.editor.path.toList) file.toList
    let path := String.ofList source
    if !t.store.isFile path then
      (.ok (), t.note .warning ("File \"" ++ file ++ "\" does not exist."))
    else match t.store.readText path encoding with
      | .error f => (.error f, t)
      | .ok text =>
        let t := { t with editor := { t.editor with buffer := Text.lines text } }
        (.ok (), t.note .info ("File \"" ++ file ++ "\" loaded."))

/-- Obeys a command. All but saving and leaving return to typing, unless a fault stops them. -/
def obey (encoding : Store.Encoding) (c : Command) (t : Step) : Except Store.Fault Unit × Step :=
  let typing (t : Step) : Step := { t with editor := { t.editor with mode := .insert } }
  match c with
  | .save =>
    let text := Text.CodePoints.ofString (String.intercalate "\n" t.editor.buffer)
    match Store.writeText t.editor.path text encoding t.store with
    | (.ok _, store) =>
      (.ok (), { t with store, editor := { t.editor with saved := true, mode := .closed } })
    | (.error f, store) => (.error f, { t with store })
  | .exit => (.ok (), { t with editor := { t.editor with mode := .closed } })
  | .load file =>
    match loadFile encoding file t with
    | (.ok _, t) => (.ok (), typing t)
    | (.error f, t) => (.error f, t)
  | .print => (.ok (), typing (t.print (t.editor.numbered.map .line)))
  | .undo =>
    (.ok (), typing { t with editor := { t.editor with buffer := t.editor.buffer.dropLast } })
  | .unknown text => (.ok (), typing (t.note .warning ("Unknown editor command: " ++ text)))

def feed (encoding : Store.Encoding) (line : String) (t : Step) : Except Store.Fault Unit × Step :=
  match line.toList with
  | ':' :: text =>
    obey encoding (Command.ofText text) { t with editor := { t.editor with mode := .command } }
  | _ => (.ok (), { t with editor := { t.editor with buffer := t.editor.buffer ++ [line] } })

/-- Takes in typed lines until the editor closes or they end, and hands back those left. -/
def typeLines (encoding : Store.Encoding) :
    List String → Step → Except Store.Fault Unit × Step × List String
  | [], t =>
    let t := t.print [.prompt t.editor.prompt]
    (.ok (), { t with editor := { t.editor with mode := .closed } }, [])
  | line :: rest, t =>
    match feed encoding line (t.print [.prompt t.editor.prompt]) with
    | (.error f, t) => (.error f, t, rest)
    | (.ok _, t) => if t.editor.mode = .closed then (.ok (), t, rest) else typeLines encoding rest t

def edit (encoding : Store.Encoding) (path : String) (input : List String) (t : Step) :
    Except Store.Fault Unit × Step × List String :=
  match t.editor.openFile t.store encoding path with
  | (.error f, editor) => (.error f, { t with editor }, input)
  | (.ok _, editor) =>
    typeLines encoding input (Step.print { t with editor } [.line editor.greeting])

end Editor

end FileQuery
