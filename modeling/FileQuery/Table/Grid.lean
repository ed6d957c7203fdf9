import FileQuery.Table.Markup
import FileQuery.Table.Rich
import FileQuery.Text.Lines
import FileQuery.Text.Width

/-! How the text of a cell is set in a column: tabs are filled up with blanks, a line that is too
wide goes on below at a word, and a word that is too wide ends in an ellipsis. A column is as wide
as its texts were before their tabs were filled up, so these cases do arise. -/
set_option autoImplicit false
namespace FileQuery.Table

def visible (s : List Char) : List Char :=
  s.filter fun c => !(['\x07', '\x08', '\x0b', '\x0c', '\r'].contains c)

def splitAtLineFeeds (s : List Char) : List (List Char) :=
  s.foldr (fun c ls => if c = '\n' then [] :: ls else Text.consLine c ls) [[]]

def askedWidth (s : List Char) : Nat :=
  ((Text.splitLines (visible s)).map Text.cells).foldl max 0

def tabWidth : Nat := 8

def expandTabs (stop : Nat) (part : List Char) : List Char → List Char
  | [] => part
  | '\t' :: r =>
    let column := stop + Text.cells part
    let next := (column / tabWidth + 1) * tabWidth
    part ++ List.replicate (next - column) ' ' ++ expandTabs next [] r
  | c :: r => expandTabs stop (part ++ [c]) r

/-- The words of a line with the blanks behind them, the first also with those in front. -/
def blankedWords (s : List Char) : List (List Char) :=
  match _h : Text.trimStart s with
  | [] => []
  | c :: r =>
    let rest := (Text.cutWord r).2
    (s.takeWhile Text.isBlank ++ c :: (Text.cutWord r).1 ++ rest.takeWhile Text.isBlank) ::
      blankedWords (Text.trimStart rest)
termination_by s.length
decreasing_by
  have h1 : (Text.trimStart s).length ≤ s.length := Text.length_dropWhile_le _ _
  have h2 := Text.length_dropWhile_le (fun c => !Text.isBlank c) r
  have h3 := Text.length_dropWhile_le Text.isBlank (r.dropWhile fun c => !Text.isBlank c)
  simp only [_h, List.length_cons] at h1
  simp only [Text.cutWord, Text.trimStart]
  omega

def fillLines (width : Nat) (line : List Char) (used : Nat) : List (List Char) → List (List Char)
  | [] => [line]
  | w :: ws =>
    if used + Text.cells (Text.trimEnd w) ≤ width then
      fillLines width (line ++ w) (used + Text.cells w) ws
    else if line.isEmpty then fillLines width w (Text.cells w) ws
    else line :: fillLines width w (Text.cells w) ws

/-- Drops blanks at the end of a line as long as it has more characters than the width. -/
def dropExcess (width : Nat) (line : List Char) : List Char :=
  let blanks := line.length - (Text.trimEnd line).length
  line.take (line.length - min blanks (line.length - width))

def takeCells (n : Nat) : List Char → List Char
  | [] => List.replicate n ' '
  | c :: r =>
    let w := Text.cellWidth c
    if w ≤ n then c :: takeCells (n - w) r else List.replicate n ' '

def truncate (width : Nat) (line : List Char) : List Char :=
  if width < Text.cells line then takeCells (width - 1) line ++ ['…'] else line

def cellLines (width : Nat) (s : List Char) : List (List Char) :=
  (splitAtLineFeeds (visible s)).flatMap fun line =>
    let line := expandTabs 0 [] line
    let lines := match blankedWords line with
      | [] => [line]
      | words => fillLines width [] 0 words
    lines.map fun l => truncate width (dropExcess width l)

/-! Tables of text: columns as wide as their widest cell or header, one blank on each side of a
cell, and a frame of box characters. -/

def fit (a : Align) (width : Nat) (s : List Char) : List Char :=
  let space := List.replicate (width - Text.cells s) ' '
  match a with
  | .left => s ++ space
  | .right => space ++ s

def frameLine (e : Edge) (widths : List Nat) : List Char :=
  e.left :: List.intercalate [e.between] (widths.map fun w => List.replicate (w + 2) e.fill) ++
    [e.right, '\n']

def textLine (e : Edge) (columns : List (Column × Nat)) (cells : List (List Char)) : List Char :=
  let shown := List.zipWith (fun c s => ' ' :: fit c.1.align c.2 s ++ [' ']) columns cells
  e.left :: List.intercalate [e.between] shown ++ [e.right, '\n']

def rowLines (e : Edge) (columns : List (Column × Nat)) (row : List (List Char)) : List Char :=
  let cells := List.zipWith (fun c s => cellLines c.2 s) columns row
  let height := (cells.map List.length).foldl max 1
  (List.range height).flatMap fun k => textLine e columns (cells.map fun ls => ls.getD k [])

def grid (f : Frame) (columns : List Column) (rows : List (List (List Char))) : List Char :=
  let widths := columns.mapIdx fun k c =>
    let asked := rows.map fun r => askedWidth (r.getD k [])
    asked.foldl max (Text.cells c.header.toList)
  let sized := columns.zip widths
  frameLine f.top widths ++ textLine f.row sized (columns.map fun c => c.header.toList) ++
    frameLine f.rule widths ++ rows.flatMap (rowLines f.row sized) ++ frameLine f.bottom widths

/-- Reads the cells of a table column by column, so that the first fault is that of the first
column that has one. -/
def readCells (rows : List (List String)) : Except MarkupError (List (List (List Char))) := do
  let width := (rows.map List.length).foldl max 0
  let columns ← (List.range width).mapM fun k =>
    rows.mapM fun r => readMarkup (r.getD k "").toList
  return (List.range rows.length).map fun i => columns.map fun c => c.getD i []

def printGrid (f : Frame) (columns : List Column) (rows : List (List String)) :
    Except String String := do
  let read ← (readCells rows).mapError (·.message)
  return String.ofList (grid f columns read)

def Rich.console : Rich where
  read s := (readMarkup s.toList).mapError (·.message)
  cells := Text.cells
  width := 200
  print := printGrid

end FileQuery.Table
