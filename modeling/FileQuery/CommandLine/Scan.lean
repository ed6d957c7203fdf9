import FileQuery.CommandLine.Usage

/-! Options and operands among the arguments of a command. An argument that begins with a dash and
has more to it is an option, or several letters in one; two dashes alone end the options. -/
set_option autoImplicit false
namespace FileQuery.CommandLine

structure Given where
  switch : Switch
  value : String := ""
  deriving DecidableEq, Repr

structure Scanned where
  given : List Given := []
  operands : List String := []
  deriving DecidableEq, Repr

namespace Scanned

def has (s : Scanned) (switch : Switch) : Bool := s.given.any fun g => g.switch == switch

def value? (s : Scanned) (switch : Switch) : Option String :=
  ((s.given.filter fun g => g.switch == switch).getLast?).map (·.value)

end Scanned

def cutEquals (arg : List Char) : List Char × Option (List Char) :=
  match arg.dropWhile (· != '=') with
  | [] => (arg, none)
  | _ :: value => (arg.takeWhile (· != '='), some value)

def takeLong (page : Page) (name : String) (value : Option String) (args : List String) :
    Except Misuse (Given × List String) :=
  match page.switches.find? fun s => s.long == name with
  | none => .error (.noSuchOption name (resembling name (page.switches.map Switch.long)))
  | some s =>
    if s.takesValue then
      match value, args with
      | some v, args => .ok (⟨s, v⟩, args)
      | none, v :: args => .ok (⟨s, v⟩, args)
      | none, [] => .error (.valueMissing name)
    else
      match value with
      | some _ => .error (.valueRefused name)
      | none => .ok (⟨s, ""⟩, args)

/-- Options by their letters. One that takes a value takes what is left of its argument, or the next
one. -/
def takeLetters (page : Page) (args : List String) :
    List Char → Except Misuse (List Given × List String)
  | [] => .ok ([], args)
  | c :: r =>
    let name := String.ofList ['-', c]
    match page.switches.find? fun s => s.letter? == some c with
    | none => .error (.noSuchOption name [])
    | some s =>
      if s.takesValue then
        match r, args with
        | [], [] => .error (.valueMissing name)
        | [], v :: args => .ok ([⟨s, v⟩], args)
        | r, args => .ok ([⟨s, String.ofList r⟩], args)
      else (takeLetters page args r).map fun p => (⟨s, ""⟩ :: p.1, p.2)

def takeOption (page : Page) (arg : List Char) (args : List String) :
    Except Misuse (List Given × List String) :=
  let (name, value) := cutEquals arg
  match takeLong page (String.ofList name) (value.map String.ofList) args with
  | .ok (g, args) => .ok ([g], args)
  | .error (.noSuchOption name similar) =>
    match arg with
    | '-' :: '-' :: _ => .error (.noSuchOption name similar)
    | arg => takeLetters page args (arg.drop 1)
  | .error e => .error e

/-- Scans arguments; the first operand of a group of commands ends its options. Each turn takes an
argument, so that their number bounds the turns. -/
def scan (page : Page) : Nat → List String → Except Misuse Scanned
  | 0, args => .ok ⟨[], args⟩
  | _ + 1, [] => .ok {}
  | n + 1, arg :: args =>
    match arg.toList with
    | ['-', '-'] => .ok ⟨[], args⟩
    | '-' :: c :: r => do
      let (given, args) ← takeOption page ('-' :: c :: r) args
      let rest ← scan page n args
      return { rest with given := given ++ rest.given }
    | _ =>
      if page.operands = .command then .ok ⟨[], arg :: args⟩
      else do
        let rest ← scan page n args
        return { rest with operands := arg :: rest.operands }

end FileQuery.CommandLine
