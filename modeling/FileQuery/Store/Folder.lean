import FileQuery.Store.Text

/-! Changes of single entries: folders made, entries removed, modes set. -/
set_option autoImplicit false
namespace FileQuery.Store

def namesAt (s : Store) (path : String) : Except Fault (List String) := do
  match ← s.stat true path with
  | (place, .folder _) => return s.names place
  | _ => throw (.os (.os .notDirectory path))

def makeFolder (path : String) : Change := .ofExcept fun s => do
  match ← s.locate false path with
  | .free place => return s.put place (.folder folderMode)
  | .found _ _ => throw (.os (.os .alreadyExists path))

def ensureFolder (path : String) : Change := fun s =>
  match makeFolder path s with
  | (.error f, s') => if s'.isFolder path then (.ok (), s') else (.error f, s')
  | done => done

/-- Makes the missing folders on a path, the highest first; there is room for so many calls. The list
holds the path and those above it, the longest first; a folder above that is something else shows when
the next one below it is made. -/
def ensureFolders : Nat → List String → Change
  | 0, _ => fun s => (.error .nested, s)
  | _ + 1, [] => fun s => (.ok (), s)
  | _ + 1, [path] => ensureFolder path
  | n + 1, path :: above :: rest => fun s =>
    if s.isPresent above then ensureFolder path s
    else match ensureFolders n (above :: rest) s with
      | (.error (.os (.os .alreadyExists _)), s') => ensureFolder path s'
      | (.error f, s') => (.error f, s')
      | (.ok _, s') => ensureFolder path s'

def pathsAbove (path : String) : List String :=
  let chars := path.toList
  let root := List.replicate (Path.rootSlashes chars) '/'
  let parts := (Path.split chars).filter fun p => !p.isEmpty
  (List.range (parts.length + 1)).reverse.map fun k =>
    String.ofList (root ++ Path.joinParts (parts.take k))

def removeFile (path : String) : Change := .ofExcept fun s => do
  match ← s.stat false path with
  | (_, .folder _) => throw (.os (.os .isDirectory path))
  | (place, _) => return s.erase place

def isHigher (s : Store) (place : Place) (levels : Nat) : Bool :=
  s.entries.any fun q =>
    place.isPrefixOf q.1 && decide (place.length + levels ≤ q.1.length) && q.2.isFolder

/-- Removes what is in a folder, name by name, up to the first tree that is too high, and there again.
There is room for so many calls. -/
def removeUntil : Nat → Place → Store → Store
  | 0, _, s => s
  | n + 1, place, s =>
    match (s.names place).span fun name => !s.isHigher (place ++ [name]) n with
    | (before, after) =>
      let s := before.foldl (fun s name => s.eraseTree (place ++ [name])) s
      match after with
      | [] => s
      | name :: _ => removeUntil n (place ++ [name]) s

/-- Removes a folder and all in it. The root is emptied, but stays; a link is refused. -/
def removeTree (path : String) : Change := fun s =>
  match s.stat false path with
  | .error f => (.error f, s)
  | .ok (_, .link _) =>
    match s.stat true path with
    | .ok _ => (.error (.os .removingLink), s)
    | .error f => (.error f, s)
  | .ok (_, .file ..) => (.error (.os (.os .notDirectory path)), s)
  | .ok (place, .folder _) =>
    if s.isHigher place s.nesting then (.error .nested, removeUntil s.nesting place s)
    else if place.isEmpty then (.error (.os (.os .busy path)), s.eraseBelow place)
    else (.ok (), s.eraseTree place)

def Entry.withMode (mode : Nat) : Entry → Entry
  | .folder _ => .folder mode
  | .file bytes _ modified => .file bytes mode modified
  | .link target => .link target

/-- Sets the mode of an entry, which is not thereby modified. -/
def setMode (path : String) (mode : Nat) : Change := .ofExcept fun s => do
  let (place, e) ← s.stat true path
  let times : Times := { s.timesAt place with changed := s.now }
  return (s.put place (Entry.withMode mode e)).setTimes place times

end FileQuery.Store
