import FileQuery.Table.Emoji
import FileQuery.Text.Blank
import FileQuery.Text.Case

/-! Markup in table cells: `[style]` opens a style and `[/style]` or `[/]` closes one; both vanish
from the text. A tag begins with a lower-case letter or with one of `#`, `/` and `@`; a backslash in
front makes it plain text. -/
set_option autoImplicit false
namespace FileQuery.Table

inductive MarkupError where
  | nothingToClose (position : Nat)
  | unmatched (tag : String) (position : Nat)
  deriving DecidableEq, Repr

namespace MarkupError

def message : MarkupError → String
  | nothingToClose position =>
    s!"closing tag '[/]' at position {position} has nothing to close"
  | unmatched tag position =>
    "closing tag '" ++ tag ++ s!"' at position {position} doesn't match any open tag"

end MarkupError

def startsTag (c : Char) : Bool :=
  (decide ('a' ≤ c) && decide (c ≤ 'z')) || c == '#' || c == '/' || c == '@'

def cutTag? : List Char → Option (List Char × List Char)
  | [] => none
  | c :: r =>
    if startsTag c then
      let body := r.takeWhile fun d => d != '[' && d != ']'
      match r.dropWhile fun d => d != '[' && d != ']' with
      | ']' :: rest => some (c :: body, rest)
      | _ => none
    else none

inductive Piece where
  | plain (text : List Char)
  | tag (position : Nat) (text : List Char)
  deriving DecidableEq, Repr

def Piece.prepend (c : Char) : List Piece → List Piece
  | plain s :: ps => plain (c :: s) :: ps
  | ps => plain [c] :: ps

def slashes (s : List Char) : Nat := (s.takeWhile (· == '\\')).length

def tagHere? (s : List Char) : Option (Nat × List Char × List Char) :=
  match s.drop (slashes s) with
  | '[' :: r => (cutTag? r).map fun p => (slashes s, p.1, p.2)
  | _ => none

theorem length_of_cutTag? {s : List Char} {p : List Char × List Char} (h : cutTag? s = some p) :
    p.2.length < s.length := by
  cases s with
  | nil => simp [cutTag?] at h
  | cons c r =>
    simp only [cutTag?] at h
    split at h
    · split at h
      · next rest hr =>
        have hl := Text.length_dropWhile_le (fun d => d != '[' && d != ']') r
        rw [hr] at hl
        simp only [Option.some.injEq] at h
        subst h
        simp only [List.length_cons] at hl ⊢
        omega
      · simp at h
    · simp at h

theorem length_of_tagHere? {s : List Char} {t : Nat × List Char × List Char}
    (h : tagHere? s = some t) : t.2.2.length < s.length := by
  simp only [tagHere?] at h
  split at h
  · next r hr =>
    obtain ⟨p, hp, rfl⟩ := Option.map_eq_some_iff.1 h
    have h1 := length_of_cutTag? hp
    have h2 : (s.drop (slashes s)).length ≤ s.length := by simp
    rw [hr] at h2
    simp only [List.length_cons] at h2 ⊢
    omega
  · simp at h

/-- The stretches of a text that begins at a position. Pairs of backslashes in front of a tag stand
for one backslash each, and an odd one makes the tag plain. An empty stretch in front of each tag
keeps what precedes it apart. -/
def pieces (position : Nat) (s : List Char) : List Piece :=
  match _h : tagHere? s with
  | some (k, tag, rest) =>
    let tail := pieces (position + k + tag.length + 2) rest
    let own := if k % 2 = 1 then Piece.plain ('[' :: tag ++ [']'])
      else Piece.tag (position + k) tag
    if 2 ≤ k then Piece.plain [] :: Piece.plain (List.replicate (k / 2) '\\') :: own :: tail
    else Piece.plain [] :: own :: tail
  | none =>
    match s with
    | [] => []
    | c :: r => Piece.prepend c (pieces (position + 1) r)
termination_by s.length
decreasing_by
  · exact length_of_tagHere? _h
  · simp

def dropBracketSlash : List Char → List Char
  | '\\' :: '[' :: r => '[' :: dropBracketSlash r
  | c :: r => c :: dropBracketSlash r
  | [] => []

/-- Replaces names between colons by their emoji; a name that is none stays, colons and all. -/
def replaceEmoji (s : List Char) : List Char :=
  match s with
  | [] => []
  | c :: r =>
    if c = ':' then
      let name := r.takeWhile fun d => d != ':' && !Text.isBlank d
      match _h : r.dropWhile fun d => d != ':' && !Text.isBlank d with
      | ':' :: rest =>
        let (key, look) := cutLook name
        (match emoji? key with
          | some e => e :: look
          | none => ':' :: name ++ [':']) ++ replaceEmoji rest
      | _ => c :: replaceEmoji r
    else c :: replaceEmoji r
termination_by s.length
decreasing_by
  · have hl := Text.length_dropWhile_le (fun d => d != ':' && !Text.isBlank d) r
    rw [_h] at hl
    simp only [List.length_cons] at hl ⊢
    omega
  · simp
  · simp

def attributeNames : List (List String) :=
  [["bold", "b"], ["dim", "d"], ["italic", "i"], ["underline", "u"], ["blink"], ["blink2"],
   ["reverse", "r"], ["conceal", "c"], ["strike", "s"], ["underline2", "uu"], ["frame"],
   ["encircle"], ["overline", "o"]]

/-- The one name of a style: attributes in their fixed order where it has nothing else. -/
def styleName (s : List Char) : List Char :=
  let words := (Text.words (Text.lower s)).map String.ofList
  if !words.isEmpty && words.all (fun w => attributeNames.any (·.contains w)) then
    let kept := attributeNames.filter fun names => names.any words.contains
    (String.intercalate " " (kept.map fun names => names.headD "")).toList
  else Text.lower (Text.trim s)

def tagName (tag : List Char) : List Char := tag.takeWhile (· != '=')

def plainText (opened : List (List Char)) : List Piece → Except MarkupError (List Char)
  | [] => .ok []
  | .plain s :: ps => do
    return replaceEmoji (dropBracketSlash s) ++ (← plainText opened ps)
  | .tag position tag :: ps =>
    match tagName tag with
    | '/' :: name =>
      let name := Text.trim name
      if name.isEmpty then
        match opened with
        | [] => .error (.nothingToClose position)
        | _ :: rest => plainText rest ps
      else
        let style := styleName name
        if opened.contains style then plainText (opened.erase style) ps
        else .error (.unmatched ("[" ++ String.ofList tag ++ "]") position)
    | name => plainText (styleName name :: opened) ps

def readMarkup (s : List Char) : Except MarkupError (List Char) :=
  if s.contains '[' then plainText [] (pieces 0 s) else .ok (replaceEmoji s)

end FileQuery.Table
