import FileQuery.Codec.Labels
import FileQuery.Config.Tree
import FileQuery.Libraries
import FileQuery.Table.Grid
import FileQuery.Toml.Printer
import FileQuery.Yaml.Document
import FileQuery.Yaml.Printer

/-! The libraries that the program is run with, as far as they are spelled out here. -/
set_option autoImplicit false
namespace FileQuery.Libraries

open Json (Value)
open Yaml (Node)

mutual

def nodeValue : Node → Value
  | .scalar v => v
  | .items vs => .array (nodeValues vs)
  | .entries es => .object (nodeEntries es)

def nodeValues : List Node → List Value
  | [] => []
  | v :: vs => nodeValue v :: nodeValues vs

def nodeEntries : List (Value × Node) → List (String × Value)
  | [] => []
  | (k, v) :: es => ((Yaml.keyText? k).getD "", nodeValue v) :: nodeEntries es

end

def keyFault? : Value → Option Fault
  | .string _ => none
  | k => some (.noMember ("'" ++ Config.typeName k ++ "' object has no attribute 'split'"))

mutual

def oddKeys : Node → Config.OddKeys
  | .entries es =>
    ((es.findSome? fun e => keyFault? e.1).map ([], ·)).toList ++ oddKeysBelow es
  | _ => []

def oddKeysBelow : List (Value × Node) → Config.OddKeys
  | [] => []
  | (.string k, v) :: es => (oddKeys v).map (fun q => (k :: q.1, q.2)) ++ oddKeysBelow es
  | _ :: es => oddKeysBelow es

end

def standard : Libraries where
  matcher := .commonest
  codec name := if Codec.normalizeName name.toList = "idna".toList then some .labels else none
  rich := .console
  readYaml text := match Yaml.read? text.toList with
    | some v => .ok { value := nodeValue v, odd := oddKeys v }
    | none => .error "malformed document"
  writeYaml := Yaml.write
  writeToml := Toml.write

end FileQuery.Libraries
