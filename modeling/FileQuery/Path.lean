/-! Paths as texts: parts between slashes, joined, normalised and taken apart. -/
set_option autoImplicit false
namespace FileQuery.Path

def split : List Char → List (List Char)
  | [] => [[]]
  | c :: r =>
    if c = '/' then [] :: split r
    else match split r with
      | [] => [[c]]
      | p :: ps => (c :: p) :: ps

def joinParts : List (List Char) → List Char
  | [] => []
  | [p] => p
  | p :: ps => p ++ '/' :: joinParts ps

def isAbsolute (s : List Char) : Bool := s.head? == some '/'

def join (a b : List Char) : List Char :=
  if isAbsolute b then b
  else if a.isEmpty || a.getLast? == some '/' then a ++ b
  else a ++ '/' :: b

/-- How many leading slashes stay: two if there are exactly two, else one if there is any. -/
def rootSlashes (s : List Char) : Nat :=
  let n := (s.takeWhile (· == '/')).length
  if n = 2 then 2 else min n 1

/-- Takes one part into a path whose parts are held last first: empty parts and dots vanish, two
dots take off a part, and stay where a relative path has none to take off. -/
def pushPart (rooted : Bool) (stack : List (List Char)) (part : List Char) : List (List Char) :=
  if part = [] ∨ part = ['.'] then stack
  else if part = ['.', '.'] then
    match stack with
    | [] => if rooted then [] else [part]
    | top :: rest => if top = ['.', '.'] then part :: stack else rest
  else part :: stack

def normalize (s : List Char) : List Char :=
  let slashes := rootSlashes s
  let parts := ((split s).foldl (pushPart (decide (0 < slashes))) []).reverse
  let path := List.replicate slashes '/' ++ joinParts parts
  if path.isEmpty then ['.'] else path

def baseName (s : List Char) : List Char := (s.reverse.takeWhile (· != '/')).reverse

/-- What precedes the last slash, without the slashes at its end unless it is slashes only. -/
def parent (s : List Char) : List Char :=
  let head := (s.reverse.dropWhile (· != '/')).reverse
  if head.all (· == '/') then head else (head.reverse.dropWhile (· == '/')).reverse

/-- The last dot of a name and what follows it, unless only dots stand before it. -/
def extension (name : List Char) : List Char :=
  let body := name.dropWhile (· == '.')
  if body.contains '.' then '.' :: (body.reverse.takeWhile (· != '.')).reverse else []

def tidy (s : List Char) : List Char :=
  let parts := (split s).filter fun p => !(p.isEmpty || p == ['.'])
  let path := List.replicate (rootSlashes s) '/' ++ joinParts parts
  if path.isEmpty then ['.'] else path

/-- The folder that holds what a tidy path leads to; a path without a slash stands for one in the
folder at hand. -/
def folderOf (s : List Char) : List Char :=
  let above := parent s
  if above.isEmpty then ['.'] else above

/-- The last dot of the last part and what follows it, if there is something before and after. -/
def suffix (s : List Char) : List Char :=
  let name := baseName s
  let after := (name.reverse.takeWhile (· != '.')).reverse
  if after.isEmpty || name.length ≤ after.length + 1 then [] else '.' :: after

end FileQuery.Path
