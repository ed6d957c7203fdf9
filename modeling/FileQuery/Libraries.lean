import FileQuery.Codec.Basic
import FileQuery.Fault
import FileQuery.Json.Basic
import FileQuery.Similarity
import FileQuery.Table.Rich

/-! What the program takes from libraries: a match among texts, codecs by their names, tables on a
console, and two formats of configuration files. -/
set_option autoImplicit false
namespace FileQuery

/-- The sections with a key that is no text, each by the keys that lead to it, with what it fails with
to cut that key. -/
abbrev Config.OddKeys := List (List String × Fault)

/-- A document as a tree, in which each key that is no text stands by its text. What is read twice
through an anchor stands twice. -/
structure Config.Document where
  value : Json.Value
  odd : Config.OddKeys := []

structure Libraries where
  matcher : Matcher
  codec : String → Option Codec.Foreign
  rich : Table.Rich
  readYaml : String → Except String Config.Document
  writeYaml : List (String × Json.Value) → String
  writeToml : List (String × Json.Value) → String

end FileQuery
