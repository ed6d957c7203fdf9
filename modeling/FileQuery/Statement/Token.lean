import FileQuery.Statement.Error
import FileQuery.Text.Blank

/-! The tokens of a line: bare words, quoted strings and parentheses, each with its span.

A string runs to the next quote of its own kind; a backslash keeps the character after it inside
the string, and the value is the raw text between the quotes. -/
set_option autoImplicit false
namespace FileQuery

inductive TokenKind where
  | word
  | string
  | opening
  | closing
  deriving DecidableEq, Repr

structure Token where
  kind : TokenKind
  value : String
  start : Nat
  stop : Nat
  deriving DecidableEq, Repr

namespace Token

def isQuote (c : Char) : Bool := c == '"' || c == '\''

def isWordChar (c : Char) : Bool :=
  !Text.isBlank c && !isQuote c && c != '(' && c != ')'

def closeString (quote : Char) : List Char → Option (List Char × List Char)
  | [] => none
  | c :: r =>
    if c = quote then some ([], r)
    else if c = '\\' then
      match r with
      | [] => none
      | d :: r => (closeString quote r).map fun p => (c :: d :: p.1, p.2)
    else (closeString quote r).map fun p => (c :: p.1, p.2)

theorem length_of_closeString {quote : Char} {s : List Char} {p : List Char × List Char}
    (h : closeString quote s = some p) : p.1.length + p.2.length + 1 = s.length := by
  fun_induction closeString quote s generalizing p with
  | case1 => simp at h
  | case2 r => simp only [Option.some.injEq] at h; subst h; simp
  | case3 => simp at h
  | case4 d r _ ih =>
    obtain ⟨q, hq, rfl⟩ := Option.map_eq_some_iff.1 h
    have := ih hq
    simp only [List.length_cons]
    omega
  | case5 c r _ _ ih =>
    obtain ⟨q, hq, rfl⟩ := Option.map_eq_some_iff.1 h
    have := ih hq
    simp only [List.length_cons]
    omega

def ofString (body : List Char) (start : Nat) : Token :=
  ⟨.string, String.ofList body, start, start + body.length + 2⟩

def ofWord (word : List Char) (start : Nat) : Token :=
  ⟨.word, String.ofList word, start, start + word.length⟩

def scan (offset : Nat) (s : List Char) : Except SyntaxError (List Token) :=
  match s with
  | [] => .ok []
  | c :: r =>
    if Text.isBlank c then scan (offset + 1) r
    else if isQuote c then
      match h : closeString c r with
      | none => .error (.unterminatedString (offset + 1))
      | some (body, rest) => do
        let ts ← scan (offset + body.length + 2) rest
        return ofString body offset :: ts
    else if c = '(' then do
      let ts ← scan (offset + 1) r
      return ⟨.opening, "(", offset, offset + 1⟩ :: ts
    else if c = ')' then do
      let ts ← scan (offset + 1) r
      return ⟨.closing, ")", offset, offset + 1⟩ :: ts
    else do
      let word := c :: r.takeWhile isWordChar
      let ts ← scan (offset + word.length) (r.dropWhile isWordChar)
      return ofWord word offset :: ts
termination_by s.length
decreasing_by
  · simp
  · have := length_of_closeString h
    simp only [List.length_cons] at this ⊢
    omega
  · simp
  · simp
  · have := Text.length_dropWhile_le isWordChar r
    simp only [List.length_cons]
    omega

end Token

def tokenize (s : List Char) : Except SyntaxError (List Token) := Token.scan 0 s

end FileQuery
