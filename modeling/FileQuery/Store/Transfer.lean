import FileQuery.Store.Folder

/-! Copying files and trees. A copied file keeps neither mode nor time; a file copied as part of a
tree keeps both. A tree is copied as far as it can be, and what could not be is reported at the
end. -/
set_option autoImplicit false
namespace FileQuery.Store

def sameEntry (s : Store) (a b : String) : Bool :=
  match s.stat true a, s.stat true b with
  | .ok (p, _), .ok (q, _) => p == q
  | _, _ => false

def hasNul (path : String) : Bool := path.toList.contains '\x00'

def copyBytes (source destination : String) : Change := .ofExcept fun s => do
  let bytes ← s.bytesAt source
  let (place, _, mode) ← s.target destination
  return s.putBytes place mode bytes

def copyFile (source destination : String) : Change := fun s =>
  if hasNul source || hasNul destination then (.error .nulInPath, s)
  else if s.sameEntry source destination then (.error (.os (.sameFile source destination)), s)
  else copyBytes source destination s

def copyStatus (source destination : String) : Change := .ofExcept fun s => do
  let (own, e) ← s.stat true source
  let (place, e') ← s.stat true destination
  match e, e' with
  | .file _ mode modified, .file bytes _ _ => return s.put place (.file bytes mode modified)
  | .folder mode, e' =>
    let times : Times := { s.timesAt own with changed := s.now }
    return (s.put place (Entry.withMode mode e')).setTimes place times
  | _, _ => return s

def joinName (folder name : String) : String :=
  String.ofList (Path.join folder.toList name.toList)

/-- Copies a file of a tree; one that meets a folder goes into that folder. The report names a file
that would be copied onto itself by its name alone. -/
def copyMember (source name destination : String) : Change := fun s =>
  let destination := if s.isFolder destination then joinName destination name else destination
  if s.sameEntry source destination then
    (.error (.os (.sameMember name destination)), s)
  else match copyBytes source destination s with
    | (.ok _, s') => copyStatus source destination s'
    | failed => failed

def failuresOf (source destination : String) : Fault → List CopyFailure
  | .os (.sameMember name path) => (StoreError.sameMember name path).message.toList.map .letter
  | .os (.copyFailures failures) => failures
  | f => [.item source destination f.message]

/-- How a member of a tree is copied: a folder as a tree, and a link as what it leads to. -/
def memberChange (copyTree : String → String → Change) (source name destination : String) :
    Change := fun s =>
  match s.stat false source with
  | .ok (_, .folder _) => copyTree source destination s
  | .ok (_, .file ..) => copyMember source name destination s
  | .ok (_, .link _) =>
    match s.stat true source with
    | .ok (_, .folder _) => copyTree source destination s
    | .ok _ | .error (.os (.os .notFound _)) => copyMember source name destination s
    | .error f => (.error f, s)
  | .error f => (.error f, s)

/-- Copies the members with some names, and gathers what could not be copied. A tree that is too high
stops the rest. -/
def copyMembers (copyTree : String → String → Change) (source destination : String) :
    List String → Store → Except Fault (List CopyFailure) × Store
  | [], s => (.ok [], s)
  | name :: rest, s =>
    let source' := joinName source name
    let destination' := joinName destination name
    match memberChange copyTree source' name destination' s with
    | (.error .nested, s) => (.error .nested, s)
    | (r, s) =>
      let failures := match r with
        | .ok _ => []
        | .error f => failuresOf source' destination' f
      let (later, s) := copyMembers copyTree source destination rest s
      (later.map (failures ++ ·), s)

def copyLevels : Nat → String → String → Change
  | 0, _, _ => fun s => (.error .nested, s)
  | n + 1, source, destination => fun s =>
    match s.namesAt source with
    | .error f => (.error f, s)
    | .ok names =>
      match ensureFolders s.nesting (pathsAbove destination) s with
      | (.error f, s) => (.error f, s)
      | (.ok _, s) =>
        match copyMembers (copyLevels n) source destination names s with
        | (.error f, s) => (.error f, s)
        | (.ok failures, s) =>
          let (r, s) := copyStatus source destination s
          let failures := match r with
            | .ok _ => failures
            | .error f => failures ++ [.item source destination f.message]
          if failures.isEmpty then (.ok (), s) else (.error (.os (.copyFailures failures)), s)

/-- Every level of a copied tree below the first takes two calls. -/
def copyTree (source destination : String) : Change := fun s =>
  if hasNul source || hasNul destination then (.error .nulInPath, s)
  else copyLevels (s.nesting / 2 + 1) source destination s

/-! Moving an entry to another name. A folder may take the place of an empty folder, and all else
that of what is no folder; no folder moves into itself. -/

def parentOf (s : Store) (path : String) : Except Errno (Place × Option String) :=
  let chars := path.toList
  let names := pathNames chars
  if maxPath ≤ path.utf8ByteSize then .error .nameTooLong
  else match walk s true maxLinks (if Path.isAbsolute chars then [] else workPlace) names.dropLast with
    | .error e => .error e
    | .ok (.free _) => .error .notFound
    | .ok (.found place (.folder _)) =>
      .ok (place, names.getLast?.filter fun n => n != "." && n != "..")
    | .ok (.found ..) => .error .notDirectory

def mayReplace (s : Store) (e : Entry) (place : Place) : Except Errno Unit :=
  match e, s.get? place with
  | _, none => .ok ()
  | .folder _, some (.folder _) => if (s.names place).isEmpty then .ok () else .error .notEmpty
  | .folder _, some _ => .error .notDirectory
  | _, some (.folder _) => .error .isDirectory
  | _, some _ => .ok ()

def child (s : Store) (folder : Place) (name : String) : Except Errno (Place × Option Entry) :=
  if maxName < name.utf8ByteSize then .error .nameTooLong
  else .ok (folder ++ [name], s.get? (folder ++ [name]))

def moveEntry (s : Store) (source destination : String) : Except Errno Store := do
  let (folder, name) ← s.parentOf source
  let (folder', name') ← s.parentOf destination
  match name, name' with
  | some n, some n' =>
    match ← s.child folder n with
    | (_, none) => throw .notFound
    | (place, some e) =>
      let (place', _) ← s.child folder' n'
      if place.isPrefixOf folder' then throw .invalid
      else if place'.isPrefixOf folder then throw .notEmpty
      else if place = place' then return s
      else
        s.mayReplace e place'
        return (s.erase place').moveTree place place'
  | _, _ => throw .busy

def move (source destination : String) : Change := .ofExcept fun s =>
  if source.toList.contains '\x00' || destination.toList.contains '\x00' then .error .nulInPath
  else (s.moveEntry source destination).mapError fun e => .os (.osPair e source destination)

end FileQuery.Store
