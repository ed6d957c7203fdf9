import FileQuery.Statement.Error

/-! Statements: what a line asks for. -/
set_option autoImplicit false
namespace FileQuery

inductive Kind where
  | file
  | folder
  deriving DecidableEq, Repr

namespace Kind

def label : Kind → String
  | file => "File"
  | folder => "Folder"

def title : Kind → String
  | file => "FILE"
  | folder => "FOLDER"

def noun : Kind → String
  | file => "file"
  | folder => "folder"

end Kind

inductive Direction where
  | ascending
  | descending
  deriving DecidableEq, Repr

structure SortSpec where
  field : String
  direction : Direction := .ascending
  deriving DecidableEq, Repr

inductive Transfer where
  | move
  | copy
  deriving DecidableEq, Repr

namespace Transfer

def done : Transfer → String
  | move => "moved"
  | copy => "copied"

def title : Transfer → String
  | move => "Move"
  | copy => "Copy"

end Transfer

structure Source where
  folder : Option String := none
  clause : Option String := none
  deriving DecidableEq, Repr

/-- The name that stands for every entry of a kind. -/
def wildcard : String := "*"

inductive Statement where
  | load (path : String)
  | create (kind : Kind) (name : String)
  | read (name : String)
  | edit (name : String)
  | write (name content : String)
  | append (name content : String)
  | delete (kind : Kind) (name : String)
  | use (folder : String)
  | drop
  | list (kind : Option Kind)
  | count (kind : Option Kind)
  | transfer (mode : Transfer) (kind : Kind) (name target : String)
  | rename (kind : Kind) (old new : String)
  | chmod (name mode : String)
  | merge (sources : List String) (destination : String)
  | deleteAll (kind : Kind) (source : Source)
  | transferAll (mode : Transfer) (kind : Kind) (target : String) (source : Source)
  | select (kind : Kind) (source : Source) (order : Option SortSpec) (into : Option String)
  | unknown (text : String) (reason : SyntaxError)
  deriving DecidableEq, Repr

namespace Statement

def title : Statement → String
  | load _ => "Load"
  | create k _ => "Create" ++ k.label
  | read _ => "ReadFile"
  | edit _ => "EditFile"
  | write _ _ => "WriteFile"
  | append _ _ => "AppendFile"
  | delete k _ => "Delete" ++ k.label
  | use _ => "Use"
  | drop => "Drop"
  | list none => "ListAll"
  | list (some k) => "List" ++ k.label ++ "s"
  | count none => "CountAll"
  | count (some k) => "Count" ++ k.label ++ "s"
  | transfer m k _ _ => m.title ++ k.label
  | rename _ _ _ => "Rename"
  | chmod _ _ => "Chmod"
  | merge _ _ => "Merge"
  | deleteAll k _ => "Delete" ++ k.label ++ "s"
  | transferAll m k _ _ => m.title ++ k.label ++ "s"
  | select k _ _ _ => "Select" ++ k.label ++ "s"
  | unknown _ _ => "Unknown"

def kind : Statement → Option Kind
  | create k _ | delete k _ | transfer _ k _ _ | deleteAll k _ | transferAll _ k _ _
  | select k _ _ _ => some k
  | read _ | edit _ | write _ _ | append _ _ => some .file
  | use _ => some .folder
  | list k | count k => k
  | load _ | drop | rename _ _ _ | chmod _ _ | merge _ _ | unknown _ _ => none

def isListing : Statement → Bool
  | list _ => true
  | _ => false

end Statement

end FileQuery
