import FileQuery.Path
import FileQuery.Store.Basic
import FileQuery.Store.Fault

/-! Where a path leads. Names are followed from the root or from the folder that relative paths start
in; a link on the way is replaced by its target, at most forty times. -/
set_option autoImplicit false
namespace FileQuery.Store

inductive Spot where
  | found (place : Place) (entry : Entry)
  | free (place : Place)

def maxName : Nat := 255

/-- The bytes that a path and the mark behind it may fill. -/
def maxPath : Nat := 4096

def maxLinks : Nat := 40

/-- The names in a path. A slash at the end asks for a folder, as a dot there does. -/
def pathNames (path : List Char) : List String :=
  let parts := (Path.split path).filter fun p => !p.isEmpty
  let closed := !parts.isEmpty && path.getLast? == some '/'
  (parts ++ if closed then [['.']] else []).map String.ofList

/-- Follows names from a place. A link is handed on with the names that stand for it and those after
it; one at the end of the path is only followed on demand. -/
def enter (s : Store) (follow : Bool) (onLink : Place → List String → Except Errno Spot)
    (here : Place) : List String → Except Errno Spot
  | [] =>
    match s.get? here with
    | some e => .ok (.found here e)
    | none => .error .notFound
  | name :: rest =>
    match s.get? here with
    | none => .error .notFound
    | some (.folder _) =>
      if name = "." then enter s follow onLink here rest
      else if name = ".." then enter s follow onLink here.dropLast rest
      else if maxName < name.utf8ByteSize then .error .nameTooLong
      else
        let place := here ++ [name]
        match s.get? place with
        | none => if rest.isEmpty then .ok (.free place) else .error .notFound
        | some (.link target) =>
          if rest.isEmpty && !follow then .ok (.found place (.link target))
          else onLink (if Path.isAbsolute target.toList then [] else here)
            (pathNames target.toList ++ rest)
        | some _ => enter s follow onLink place rest
    | some _ => .error .notDirectory

def walk (s : Store) (follow : Bool) : Nat → Place → List String → Except Errno Spot
  | 0 => enter s follow fun _ _ => .error .tooManyLinks
  | n + 1 => enter s follow (walk s follow n)

def workPlace : Place := ["work"]

def workFolder : String := "/work"

def locate (s : Store) (follow : Bool) (path : String) : Except Fault Spot :=
  let chars := path.toList
  if chars.contains '\x00' then .error .nulInPath
  else
    let found : Except Errno Spot :=
      if chars.isEmpty then .error .notFound
      else if maxPath ≤ path.utf8ByteSize then .error .nameTooLong
      else walk s follow maxLinks (if Path.isAbsolute chars then [] else workPlace) (pathNames chars)
    found.mapError fun e => .os (.os e path)

def stat (s : Store) (follow : Bool) (path : String) : Except Fault (Place × Entry) :=
  match s.locate follow path with
  | .ok (.found place entry) => .ok (place, entry)
  | .ok (.free _) => .error (.os (.os .notFound path))
  | .error f => .error f

def isPresent (s : Store) (path : String) : Bool := (s.stat true path).isOk

def isFolder (s : Store) (path : String) : Bool :=
  match s.stat true path with
  | .ok (_, .folder _) => true
  | _ => false

def isFile (s : Store) (path : String) : Bool :=
  match s.stat true path with
  | .ok (_, .file ..) => true
  | _ => false

end FileQuery.Store
