import FileQuery.CommandError
import FileQuery.Path
import FileQuery.Store.Walk

/-! The folder that statements run in. It is held as a normalised absolute path. -/
set_option autoImplicit false
namespace FileQuery

structure Session where
  folder : String
  deriving DecidableEq, Repr

namespace Session

def homeFolder : String := "/home/user"

def expandHome (path : List Char) : List Char :=
  match path with
  | ['~'] => homeFolder.toList
  | '~' :: '/' :: r => homeFolder.toList ++ '/' :: r
  | _ => path

def start (folder : String) : Session :=
  let path := Path.join Store.workFolder.toList (expandHome folder.toList)
  ⟨String.ofList (Path.normalize path)⟩

/-- A path below the folder, part after part; an absolute part starts anew. -/
def resolve (s : Session) (parts : List String) : String :=
  String.ofList (Path.normalize ((parts.map String.toList).foldl Path.join s.folder.toList))

def use (s : Session) (store : Store) (folder : String) : Except CommandError Session :=
  let path := s.resolve [folder]
  if store.isFolder path then .ok ⟨path⟩ else .error (.noFolder folder)

def drop (s : Session) : Except CommandError Session :=
  let above := String.ofList (Path.parent s.folder.toList)
  if above = s.folder then .error (.atRoot s.folder) else .ok ⟨above⟩

end Session

end FileQuery
