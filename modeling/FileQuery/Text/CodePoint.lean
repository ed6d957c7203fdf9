/-! Texts as code points. Escapes can name a lone surrogate, which no `Char` is; such a text can be
held and looked at, but no codec can write it. -/
set_option autoImplicit false
namespace FileQuery.Text

abbrev CodePoints := List Nat

def CodePoints.ofString (s : String) : CodePoints := s.toList.map Char.toNat

def isHighSurrogate (n : Nat) : Bool := decide (0xD800 ≤ n) && decide (n ≤ 0xDBFF)

def isLowSurrogate (n : Nat) : Bool := decide (0xDC00 ≤ n) && decide (n ≤ 0xDFFF)

def isSurrogate (n : Nat) : Bool := decide (0xD800 ≤ n) && decide (n ≤ 0xDFFF)

def joinSurrogates (high low : Nat) : Nat := 0x10000 + (high - 0xD800) * 0x400 + (low - 0xDC00)

/-- The text as a string; a lone surrogate becomes the replacement character. -/
def CodePoints.toString (s : CodePoints) : String :=
  String.ofList (s.map fun n => if isSurrogate n then '\uFFFD' else Char.ofNat n)

/-! Membership of a code point in a list of closed ranges. -/

def inRanges (ranges : List (Nat × Nat)) (n : Nat) : Bool :=
  ranges.any (fun r => decide (r.1 ≤ n) && decide (n ≤ r.2))

end FileQuery.Text
