/-! Tables as a library prints them: columns of texts that are markup, and a frame of box characters
around them. -/
set_option autoImplicit false
namespace FileQuery.Table

inductive Align where
  | left
  | right
  deriving DecidableEq, Repr

structure Column where
  header : String
  align : Align := .left
  deriving DecidableEq, Repr

/-- Four characters of a line of the frame: its ends, what it is filled with, what stands between
columns. -/
structure Edge where
  left : Char
  fill : Char
  between : Char
  right : Char
  deriving DecidableEq, Repr

structure Frame where
  top : Edge
  row : Edge
  rule : Edge
  bottom : Edge
  deriving DecidableEq, Repr

def rounded : Frame where
  top := ⟨'╭', '─', '┬', '╮'⟩
  row := ⟨'│', ' ', '│', '│'⟩
  rule := ⟨'├', '─', '┼', '┤'⟩
  bottom := ⟨'╰', '─', '┴', '╯'⟩

def plain : Frame where
  top := ⟨' ', ' ', ' ', ' '⟩
  row := ⟨' ', ' ', ' ', ' '⟩
  rule := ⟨' ', '─', '─', ' '⟩
  bottom := ⟨' ', ' ', ' ', ' '⟩

/-- A library with a console: what it reads a text as, how many cells a text takes, how many there are
on a line, and the table that it prints of rows of texts, unless one of them cannot be read. -/
structure Rich where
  read : String → Except String (List Char)
  cells : List Char → Nat
  width : Nat
  print : Frame → List Column → List (List String) → Except String String

end FileQuery.Table
