import FileQuery.Instant.Basic
import FileQuery.Text.CodePoint

/-! A store of files, folders and links. Every entry stands at a place, the list of names that leads
to it from the root; the root itself stands at the empty place. -/
set_option autoImplicit false
namespace FileQuery

abbrev Place := List String

/-- Libraries have more than one way to compare bytes; entries compare them in this one. -/
instance decidableEqBytes : DecidableEq ByteArray := ByteArray.instDecidableEq

inductive Entry where
  | folder (mode : Nat)
  | file (bytes : ByteArray) (mode : Nat) (modified : Instant)
  | link (target : String)
  deriving DecidableEq

def Entry.isFolder : Entry → Bool
  | folder _ => true
  | _ => false

/-- When an entry was last modified and last changed at all. A file holds the first of them itself. -/
structure Times where
  modified : Instant
  changed : Instant
  deriving DecidableEq

/-- The entries of a store, and the instant at which it stands: what is written is modified then, and
the times that are not listed are that instant. A name whose bytes are no text is spelled with a
character of `undecoded` for each byte from 0x80 on. Work on a tree, a call for every level of it, is
given up beyond `nesting` calls. -/
structure Store where
  now : Instant
  entries : List (Place × Entry)
  times : List (Place × Times) := []
  undecoded : List Char := []
  nesting : Nat := 950
  deriving DecidableEq

namespace Store

def folderMode : Nat := 0o755

def fileMode : Nat := 0o644

def empty (now : Instant) : Store := { now, entries := [([], .folder folderMode)] }

def get? (s : Store) (p : Place) : Option Entry := s.entries.lookup p

def timesAt (s : Store) (p : Place) : Times := (s.times.lookup p).getD ⟨s.now, s.now⟩

def setTimes (s : Store) (p : Place) (t : Times) : Store :=
  { s with times := (p, t) :: s.times.filter fun q => q.1 != p }

/-- Puts an entry at a place, in the stead of any other there. A new name modifies its folder. -/
def put (s : Store) (p : Place) (e : Entry) : Store :=
  { s with
    entries := (p, e) :: s.entries.filter fun q => q.1 != p
    times := s.times.filter fun q => q.1 != p && (q.1 != p.dropLast || (s.get? p).isSome) }

def erase (s : Store) (p : Place) : Store :=
  { s with
    entries := s.entries.filter fun q => q.1 != p
    times := s.times.filter fun q => q.1 != p && q.1 != p.dropLast }

def eraseTree (s : Store) (p : Place) : Store :=
  { s with
    entries := s.entries.filter fun q => !p.isPrefixOf q.1
    times := s.times.filter fun q => !p.isPrefixOf q.1 && q.1 != p.dropLast }

def eraseBelow (s : Store) (p : Place) : Store :=
  { s with
    entries := s.entries.filter fun q => q.1 == p || !p.isPrefixOf q.1
    times := s.times.filter fun q => !p.isPrefixOf q.1 }

/-- The place `p` and all below it, with `p` replaced by `p'` at the head of each. -/
def moveTree (s : Store) (p p' : Place) : Store :=
  { s with
    entries := s.entries.map fun q =>
      if p.isPrefixOf q.1 then (p' ++ q.1.drop p.length, q.2) else q
    times := (s.times.filter fun q => q.1 != p.dropLast && q.1 != p'.dropLast).map fun q =>
      if q.1 == p then (p', { q.2 with changed := s.now })
      else if p.isPrefixOf q.1 then (p' ++ q.1.drop p.length, q.2) else q }

def nameIn? (folder p : Place) : Option String :=
  if p.dropLast = folder then p.getLast? else none

def names (s : Store) (folder : Place) : List String :=
  (s.entries.filterMap fun q => nameIn? folder q.1).mergeSort fun a b => !decide (b < a)

/-- The code point of a character in a name: a byte that is no text is a lone surrogate. -/
def pointOf (s : Store) (c : Char) : Nat :=
  match s.undecoded.idxOf? c with
  | some i => 0xDC80 + i % 128
  | none => c.toNat

def pointsOf (s : Store) (text : String) : Text.CodePoints := text.toList.map s.pointOf

end Store

end FileQuery
