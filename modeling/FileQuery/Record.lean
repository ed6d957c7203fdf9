import FileQuery.Instant.Basic
import FileQuery.Json.Basic
import FileQuery.Path
import FileQuery.Statement.Basic
import FileQuery.Text.Case

/-! Records: the attributes of one file or folder, as conditions test them, orders compare them and
reports show them. -/
set_option autoImplicit false
namespace FileQuery

structure Record where
  name : String
  path : String
  size : Int := 0
  extension : String := ""
  modified : Instant := ⟨0⟩
  created : Instant := ⟨0⟩
  permissions : Int := 0
  kind : Kind := .file
  deriving DecidableEq, Repr

inductive Field where
  | name
  | path
  | size
  | extension
  | modified
  | created
  | permissions
  deriving DecidableEq, Repr

namespace Field

def all : List Field := [name, path, size, extension, modified, created, permissions]

def label : Field → String
  | name => "name"
  | path => "path"
  | size => "size"
  | extension => "extension"
  | modified => "modified"
  | created => "created"
  | permissions => "permissions"

def labels : List String := all.map label

def ofName? (name : String) : Option Field :=
  let key := String.ofList (Text.lower (Text.trim name.toList))
  all.find? (fun f => f.label == key)

end Field

/-- Lower case, with a dot in front unless it is empty. -/
def normalizeExtension (s : List Char) : List Char :=
  match Text.lower (Text.trim s) with
  | [] => []
  | c :: r => if c = '.' then c :: r else '.' :: c :: r

/-- The nine permission bits of a mode, the higher bits dropped. -/
def permissionBits (mode : Int) : Nat := (mode % 512).toNat

def formatPermissions (mode : Int) : String := Text.octal 4 (permissionBits mode)

inductive FieldValue where
  | text (s : String)
  | number (n : Int)
  | instant (i : Instant)
  deriving DecidableEq, Repr

namespace FieldValue

def le : FieldValue → FieldValue → Bool
  | text a, text b => !decide (b < a)
  | number a, number b => decide (a ≤ b)
  | instant a, instant b => decide (a.micros ≤ b.micros)
  | text _, _ => true
  | number _, instant _ => true
  | _, _ => false

end FieldValue

namespace Record

def isFolder (r : Record) : Bool := r.kind == .folder

def get (r : Record) : Field → FieldValue
  | .name => .text r.name
  | .path => .text r.path
  | .size => .number r.size
  | .extension => .text r.extension
  | .modified => .instant r.modified
  | .created => .instant r.created
  | .permissions => .number r.permissions

def shown (r : Record) : Field → Json.Value
  | .name => .string r.name
  | .path => .string r.path
  | .size => .int r.size
  | .extension => .string r.extension
  | .modified => .string r.modified.iso
  | .created => .string r.created.iso
  | .permissions => .string (formatPermissions r.permissions)

def toJson (r : Record) : Json.Value := .object (Field.all.map fun f => (f.label, r.shown f))

def ofEntry (path : String) (kind : Kind) (size : Int) (mode : Int) (modified created : Instant) :
    Record :=
  let name := Path.baseName path.toList
  { name := String.ofList name
    path
    size := if kind = .folder then 0 else size
    extension := if kind = .folder then "" else
      String.ofList (normalizeExtension (Path.extension name))
    modified
    created
    permissions := permissionBits mode
    kind }

end Record

/-- What a system tells of an entry; not every one tells when it was born. -/
structure Stat where
  mode : Int
  size : Int
  modified : Instant.Seconds
  changed : Instant.Seconds
  born : Option Instant.Seconds := none

/-- The record of an entry, unless one of its times is no date. Without a birth the last change counts
as the creation. -/
def Record.ofStat (path : String) (kind : Kind) (st : Stat) : Except Instant.StampError Record := do
  let modified ← st.modified.instant
  let created ← (st.born.getD st.changed).instant
  return ofEntry path kind st.size st.mode modified created

end FileQuery
