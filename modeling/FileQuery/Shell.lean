import FileQuery.Statement.Phrase
import FileQuery.Text.Blank
import FileQuery.Text.Case
import FileQuery.Execution.Statement

/-! Completion of typed command words: the words that may stand next in a command phrase that begins
as the line does. -/
set_option autoImplicit false
namespace FileQuery

/-- The part of a text in front of a position; a negative one counts from the end. -/
def upTo (position : Option Int) (s : List Char) : List Char :=
  match position with
  | none => s
  | some (.ofNat n) => s.take n
  | some (.negSucc n) => s.take (s.length - (n + 1))

def insertWord (w : String) : List String → List String
  | [] => [w]
  | v :: vs => if w = v then v :: vs else if w < v then w :: v :: vs else v :: insertWord w vs

def completions (line : List Char) (start stop : Option Int) : List String :=
  let typed := Text.upper (Text.trimStart (upTo stop line))
  let position := (Text.words (upTo start line)).length
  commandPhrases.foldl (fun found phrase =>
    if typed.isPrefixOf phrase.toList then
      match (Text.words phrase.toList)[position]? with
      | some w => insertWord (String.ofList (w ++ [' '])) found
      | none => found
    else found) []

def shellWords : List String := ["EOF", "exit", "help", "quit"]

def shellCompletions (text : List Char) : List String :=
  shellWords.filter fun w => text.isPrefixOf w.toList

/-- What may stand at the start of a line; without a line the text is one. -/
def firstCompletions (text line : List Char) (start stop : Option Int) : List String :=
  completions (if line.isEmpty then text else line) start stop ++ shellCompletions text

/-! The interactive shell: a prompt, a line, what it gives, and so on until the line that leaves or
the end of the input. -/

namespace Shell

inductive Request where
  | nothing
  | help (topic : String)
  | leave
  | endOfInput
  | statement (text : String)
  deriving DecidableEq, Repr

def isWordChar (c : Char) : Bool := c.isAlphanum || c == '_'

/-- The request of a line. A question mark asks for help; words of the shell are known by their case
at the head of a line, and the two that leave also alone in any case. -/
def Request.ofLine (line : String) : Request :=
  let text := Text.trim line.toList
  let text := match text with
    | '?' :: r => "help ".toList ++ r
    | t => t
  let rest := String.ofList (Text.trim (text.dropWhile isWordChar))
  match String.ofList (text.takeWhile isWordChar) with
  | "help" => help rest
  | "exit" | "quit" => leave
  | "EOF" => endOfInput
  | _ =>
    if text.isEmpty then nothing
    else if ["exit", "quit"].contains (String.ofList (Text.lower text)) then leave
    else statement (String.ofList text)

def helpText (topic : String) : String :=
  match topic with
  | "" => "\nDocumented commands (type help <topic>):\n" ++
      "========================================\nEOF  exit  help  quit\n\n"
  | "exit" | "quit" => "Exit the shell.\n"
  | "EOF" => "Handle Ctrl+D to exit.\n"
  | "help" => "List available commands with \"help\" or detailed help with \"help cmd\".\n"
  | topic => "*** No help on " ++ topic ++ "\n"

def farewell : String := "\nGoodbye!\n"

def promptOf (s : Session) : String := "filang:" ++ s.folder ++ "> "

structure State where
  world : World
  last : Option Statement := none

def State.print (s : State) (shown : Shown) : State :=
  { s with world := { s.world with shown := s.world.shown ++ [shown] } }

def runStatement (rich : Table.Rich) (settings : Settings) (text : String) (s : State) :
    Option Fault × State :=
  match execute settings text s.world with
  | (.error f, world) => (some f, { s with world })
  | (.ok o, world) =>
    let (shown, e) := o.render rich
    (e.map .table, State.print ⟨world, some o.statement⟩ (.block shown))

def nextLine (w : World) : Option String × World :=
  match w.input with
  | [] => (none, w)
  | line :: rest => (some line, { w with input := rest })

/-- Obeys lines until one leaves; the end of the input leaves too. Each turn takes a line, so that
one turn more than there are lines is enough. -/
def turns (rich : Table.Rich) (settings : Settings) : Nat → State → Option Fault × State
  | 0, s => (none, s)
  | n + 1, s =>
    let s := s.print (.prompt (promptOf s.world.session))
    let (line, world) := nextLine s.world
    let s := { s with world }
    match (line.map Request.ofLine).getD .endOfInput with
    | .nothing => turns rich settings n s
    | .help topic => turns rich settings n (s.print (.block (helpText topic)))
    | .leave => (none, s.print (.block farewell))
    | .endOfInput => (none, s.print (.block ("\n" ++ farewell)))
    | .statement text =>
      match runStatement rich settings text s with
      | (none, s) => turns rich settings n s
      | stopped => stopped

def run (rich : Table.Rich) (settings : Settings) (w : World) : Option Fault × State :=
  turns rich settings (w.input.length + 1) { world := w }

end Shell

end FileQuery
