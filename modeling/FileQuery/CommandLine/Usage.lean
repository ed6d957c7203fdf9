import FileQuery.CommandLine.Page
import FileQuery.Text.Quoted

/-! How much two texts resemble each other: the longest block they share, and the blocks they share
on both sides of it, against the length of both. -/
set_option autoImplicit false
namespace FileQuery.CommandLine

def agreement : List Char → List Char → Nat
  | a :: as, b :: bs => if a = b then agreement as bs + 1 else 0
  | _, _ => 0

structure Block where
  left : Nat
  right : Nat
  size : Nat
  deriving DecidableEq, Repr

/-- The longest shared block; of those the first in the first text, then in the second. -/
def longestBlock (a b : List Char) : Block :=
  let starts := (List.range a.length).flatMap fun i => (List.range b.length).map fun j => (i, j)
  starts.foldl (fun best (i, j) =>
    let size := agreement (a.drop i) (b.drop j)
    if best.size < size then ⟨i, j, size⟩ else best) ⟨0, 0, 0⟩

/-- The characters in shared blocks, the longest one first. Each block is taken off the first text,
whose length bounds their number. -/
def sharedCount : Nat → List Char → List Char → Nat
  | 0, _, _ => 0
  | n + 1, a, b =>
    let block := longestBlock a b
    if block.size = 0 then 0
    else
      block.size + sharedCount n (a.take block.left) (b.take block.right) +
        sharedCount n (a.drop (block.left + block.size)) (b.drop (block.right + block.size))

/-- Whether shared characters make up three fifths of two texts. -/
def resembles (a b : String) : Bool :=
  let shared := sharedCount a.length a.toList b.toList
  decide (3 * (a.length + b.length) ≤ 10 * shared)

def resembling (word : String) (choices : List String) : List String :=
  (choices.filter fun c => resembles c word).mergeSort fun a b => !decide (b < a)

/-! What is wrong with the way a command was called. -/

inductive Misuse where
  | noSuchOption (name : String) (similar : List String)
  | valueMissing (name : String)
  | valueRefused (name : String)
  | noSuchCommand (name : String) (similar : List String)
  | commandMissing
  | operandMissing (label : String)
  | extraOperands (operands : List String)
  | noSuchFolder (path : String)
  | notFolder (path : String)
  | noSuchScript (path : String)
  | notScript (path : String)
  | wrongExtension
  deriving DecidableEq, Repr

namespace Misuse

def meant (similar : List String) : String :=
  match similar.map Text.quoted with
  | [] => ""
  | [s] => " Did you mean " ++ s ++ "?"
  | ss => " (Did you mean one of: " ++ String.intercalate ", " ss ++ "?)"

def invalid (label reason : String) : String := "Invalid value for " ++ label ++ ": " ++ reason

def folderLabel : String := "'--directory' / '-d'"

def scriptLabel : String := "'SCRIPT'"

def message : Misuse → String
  | noSuchOption name similar => "No such option " ++ Text.quoted name ++ "." ++ meant similar
  | valueMissing name => "Option " ++ Text.quoted name ++ " requires an argument."
  | valueRefused name => "Option " ++ Text.quoted name ++ " does not take a value."
  | noSuchCommand name similar => "No such command " ++ Text.quoted name ++ "." ++ meant similar
  | commandMissing => "Missing command."
  | operandMissing label => "Missing argument '" ++ label ++ "'."
  | extraOperands operands =>
    (if operands.length = 1 then "Got unexpected extra argument ("
      else "Got unexpected extra arguments (") ++ String.intercalate " " operands ++ ")"
  | noSuchFolder path =>
    invalid folderLabel ("Directory " ++ Text.quoted path ++ " does not exist.")
  | notFolder path => invalid folderLabel ("Directory " ++ Text.quoted path ++ " is a file.")
  | noSuchScript path => invalid scriptLabel ("File " ++ Text.quoted path ++ " does not exist.")
  | notScript path => invalid scriptLabel ("File " ++ Text.quoted path ++ " is a directory.")
  | wrongExtension => invalid "SCRIPT" "script must have the .fql extension"

end Misuse

structure UsageError where
  page : Page
  misuse : Misuse
  deriving DecidableEq, Repr

def UsageError.text (e : UsageError) : String :=
  e.page.usage ++ "\nTry '" ++ e.page.title ++ " --help' for help.\n\nError: " ++
    e.misuse.message ++ "\n"

end FileQuery.CommandLine
