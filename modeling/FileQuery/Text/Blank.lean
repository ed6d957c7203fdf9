/-! Blank characters, trimming and splitting at them.

`trim` drops blanks at both ends, `words` cuts at runs of blanks, and `cutWord` takes one word off
the front. -/
set_option autoImplicit false
namespace FileQuery.Text

/-- Unicode white space, and the four ASCII separators U+001C to U+001F. -/
def isBlank (c : Char) : Bool :=
  let n := c.toNat
  (decide (9 ≤ n) && decide (n ≤ 13)) || (decide (28 ≤ n) && decide (n ≤ 32)) ||
    n == 0x85 || n == 0xA0 || n == 0x1680 || (decide (0x2000 ≤ n) && decide (n ≤ 0x200A)) ||
    n == 0x2028 || n == 0x2029 || n == 0x202F || n == 0x205F || n == 0x3000

def trimStart (s : List Char) : List Char := s.dropWhile isBlank

def trimEnd (s : List Char) : List Char := (s.reverse.dropWhile isBlank).reverse

def trim (s : List Char) : List Char := trimEnd (trimStart s)

def cutWord (s : List Char) : List Char × List Char :=
  (s.takeWhile (fun c => !isBlank c), s.dropWhile (fun c => !isBlank c))

theorem length_dropWhile_le (p : Char → Bool) (s : List Char) :
    (s.dropWhile p).length ≤ s.length := by
  induction s with
  | nil => simp
  | cons c r ih =>
    rw [List.dropWhile_cons]
    split
    · exact Nat.le_succ_of_le ih
    · exact Nat.le_refl _

def words (s : List Char) : List (List Char) :=
  match _h : trimStart s with
  | [] => []
  | c :: r => (c :: r.takeWhile (fun c => !isBlank c)) :: words (r.dropWhile (fun c => !isBlank c))
termination_by s.length
decreasing_by
  have h1 : (trimStart s).length ≤ s.length := length_dropWhile_le _ _
  have h2 := length_dropWhile_le (fun c => !isBlank c) r
  simp only [_h, List.length_cons] at h1
  omega

def mapString (f : List Char → List Char) (s : String) : String := String.ofList (f s.toList)

end FileQuery.Text
