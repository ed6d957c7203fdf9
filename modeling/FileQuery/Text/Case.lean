import FileQuery.Text.CaseTable

/-! Full upper and lower case. Upper case may lengthen a text (`ß` becomes `SS`); lower case is one
character for one, but for the dotted capital I and for a sigma at the end of a word. -/
set_option autoImplicit false
namespace FileQuery.Text

def upperOf (c : Char) : List Char :=
  if c.toNat < 128 then [c.toUpper]
  else match upperExpansions.find? (fun e => e.1 == c.toNat) with
    | some e => e.2.map Char.ofNat
    | none => [Char.ofNat (Shift.image upperShifts c.toNat)]

def upper (s : List Char) : List Char := s.flatMap upperOf

def isCased (c : Char) : Bool := inRanges casedRanges c.toNat

def isCaseIgnorable (c : Char) : Bool := inRanges caseIgnorableRanges c.toNat

def casedNext (s : List Char) : Bool :=
  match s.dropWhile isCaseIgnorable with
  | [] => false
  | c :: _ => isCased c

def lowerOf (c : Char) : List Char :=
  if c.toNat < 128 then [c.toLower]
  else if c.toNat = 0x130 then ['i', Char.ofNat 0x307]
  else [Char.ofNat (Shift.image lowerShifts c.toNat)]

/-- Lowers a text whose reversed beginning is given; a capital sigma becomes final when a cased
character stands before it and none after. -/
def lowerAfter (before : List Char) : List Char → List Char
  | [] => []
  | c :: r =>
    let low :=
      if c = 'Σ' then
        if casedNext before && !casedNext r then ['ς'] else ['σ']
      else lowerOf c
    low ++ lowerAfter (c :: before) r

def lower (s : List Char) : List Char := lowerAfter [] s

/-! Case-insensitive comparison of single characters. Two characters are alike when their
one-to-one lower cases are the same or stand in one group; nothing is expanded, so `ß` is never
like `ss`. -/

/-- Lower-case characters held equal although neither lowers to the other. -/
def foldGroups : List (List Nat) :=
  [
   [105, 305], [115, 383], [181, 956], [837, 953, 8126], [912, 8147], [944, 8163], [946, 976],
   [949, 1013], [952, 977], [954, 1008], [960, 982], [961, 1009], [962, 963], [966, 981],
   [1074, 7296], [1076, 7297], [1086, 7298], [1089, 7299], [1090, 7300, 7301], [1098, 7302],
   [1123, 7303], [7304, 42571], [7777, 7835], [64261, 64262]]

/-- The one-to-one lower case of a character; a dotted capital I gives a plain `i`. -/
def simpleLower (c : Char) : Nat :=
  if c.toNat < 128 then c.toLower.toNat
  else if c.toNat = 0x130 then 'i'.toNat
  else Shift.image lowerShifts c.toNat

def fold (c : Char) : Nat :=
  let n := simpleLower c
  match foldGroups.find? (fun g => g.contains n) with
  | some g => g.headD n
  | none => n

def alike (a b : Char) : Bool := fold a == fold b

end FileQuery.Text
