import FileQuery.Proofs.Except
import FileQuery.Proofs.Text.Blank
import FileQuery.Proofs.Text.Integer
import FileQuery.Proofs.Text.Lines
import FileQuery.Table.Grid
import Mathlib.Data.List.GetD

/-! # What is known of the library that prints tables

A library keeps what it is documented to do (`Rich.Documented`): it takes texts for markup with codes of
emoji, refuses a table just if one of its texts cannot be read, and else sets each row that fits on a line
of its own, in columns as wide as their widest text. How its texts are found on the printed lines is
derived from that. -/
set_option autoImplicit false
namespace FileQuery.Table

open Text (trim isBlank Blanks Plain)

/-! ## Texts that no layout acts on -/

/-- A character that a layout acts on: a line break, a tab, or one that is never shown. -/
def steers (c : Char) : Bool := Text.isBreak c || ['\t', '\x07', '\x08'].contains c

def Calm (s : List Char) : Prop := ∀ c ∈ s, steers c = false

instance (s : List Char) : Decidable (Calm s) := List.decidableBAll _ s

theorem range_of_steers {c : Char} (acts : steers c = true) :
    c.toNat < 0x20 ∨ 0x7F ≤ c.toNat ∧ c.toNat ≤ 0x2029 := by
  have known : ∀ d ∈ ['\n', '\r', '\x0b', '\x0c', '\x1c', '\x1d', '\x1e', '\u0085', '\u2028',
      '\u2029', '\t', '\x07', '\x08'], d.toNat < 0x20 ∨ 0x7F ≤ d.toNat ∧ d.toNat ≤ 0x2029 := by
    simp
  exact known c (by simpa [steers, Text.isBreak, or_assoc] using acts)

section Calm
variable {s : List Char}

theorem Calm.mono {a b : List Char} (calm : Calm b) (inside : a ⊆ b) : Calm a :=
  fun c member => calm c (inside member)

theorem calm_cons {c : Char} : Calm (c :: s) ↔ steers c = false ∧ Calm s := List.forall_mem_cons

theorem calm_append {a b : List Char} : Calm (a ++ b) ↔ Calm a ∧ Calm b := List.forall_mem_append

theorem Calm.not_mem (calm : Calm s) {c : Char} (acts : steers c = true) : c ∉ s := fun member => by
  have still := calm c member
  rw [acts] at still
  cases still

theorem Calm.isBreak (calm : Calm s) {c : Char} (member : c ∈ s) : Text.isBreak c = false :=
  (Bool.or_eq_false_iff.mp (calm c member)).1

end Calm

/-! ## Texts between colons -/

/-- The texts between two colons of a word, which are paired from the left. A colon may be waiting for
its partner, and so may what has been read since, its last character first. -/
def codesAfter : Option (List Char) → List Char → List (List Char)
  | _, [] => []
  | none, c :: r => codesAfter (if c = ':' then some [] else none) r
  | some name, c :: r =>
    if c = ':' then name.reverse :: codesAfter none r
    else codesAfter (if isBlank c then none else some (c :: name)) r

def codes (s : List Char) : List (List Char) := codesAfter none s

/-- What can stand between the two colons of a pair. -/
def Inside (s : List Char) : Prop := ∀ d ∈ s, d ≠ ':' ∧ isBlank d = false

instance (s : List Char) : Decidable (Inside s) := List.decidableBAll _ s

section Codes
variable {c : Char} {name r s : List Char}

theorem inside_cons : Inside (c :: s) ↔ (c ≠ ':' ∧ isBlank c = false) ∧ Inside s :=
  List.forall_mem_cons

theorem codesAfter_name (inside : Inside name) (read r : List Char) :
    codesAfter (some read) (name ++ r) = codesAfter (some (name.reverse ++ read)) r := by
  induction name generalizing read with
  | nil => rfl
  | cons d name ih =>
      obtain ⟨⟨colon, blank⟩, rest⟩ := inside_cons.mp inside
      rw [List.cons_append, codesAfter, if_neg colon, blank, if_neg Bool.false_ne_true, ih rest,
        List.reverse_cons, List.append_assoc]
      rfl

theorem codes_cons (colon : c ≠ ':') (r : List Char) : codes (c :: r) = codes r := by
  rw [codes, codesAfter, if_neg colon, codes]

theorem codes_behind (none : ':' ∉ name) (r : List Char) : codes (name ++ r) = codes r := by
  induction name with
  | nil => rfl
  | cons d name ih =>
      rw [List.mem_cons, not_or] at none
      rw [List.cons_append, codes_cons (Ne.symm none.1), ih none.2]

theorem codes_of_noColon (none : ':' ∉ s) : codes s = [] := by
  have whole := codes_behind none []
  rwa [List.append_nil] at whole

theorem Inside.noColon (inside : Inside s) : ':' ∉ s := fun member => (inside ':' member).1 rfl

theorem codes_colon (inside : Inside name) (r : List Char) :
    codes (':' :: (name ++ r)) = codesAfter (some name.reverse) r := by
  rw [codes, codesAfter, if_pos rfl, codesAfter_name inside, List.append_nil]

theorem codes_pair (inside : Inside name) (rest : List Char) :
    codes (':' :: (name ++ ':' :: rest)) = name :: codes rest := by
  rw [codes_colon inside, codesAfter, if_pos rfl, List.reverse_reverse, codes]

theorem codes_alone (inside : Inside name) {rest : List Char}
    (stops : ∀ d ∈ rest.head?, d ≠ ':' ∧ isBlank d = true) :
    codes (':' :: (name ++ rest)) = codes (name ++ rest) := by
  rw [codes_colon inside, codes_behind inside.noColon]
  cases rest with
  | nil => rfl
  | cons d rest =>
      obtain ⟨colon, blank⟩ := stops d rfl
      rw [codesAfter, if_neg colon, blank, if_pos rfl, codes_cons colon, codes]

end Codes

/-! ## Printable texts -/

def Printable (s : List Char) : Prop := ∀ c ∈ s, 0x20 ≤ c.toNat ∧ c.toNat < 0x7F

instance (s : List Char) : Decidable (Printable s) := List.decidableBAll _ s

/-- A printable text without what markup begins with. -/
structure Dull (s : List Char) : Prop where
  printable : Printable s
  noBracket : '[' ∉ s
  noColon : ':' ∉ s

instance (s : List Char) : Decidable (Dull s) :=
  decidable_of_iff (Printable s ∧ '[' ∉ s ∧ ':' ∉ s)
    ⟨fun ⟨printable, bracket, colon⟩ => ⟨printable, bracket, colon⟩,
      fun dull => ⟨dull.printable, dull.noBracket, dull.noColon⟩⟩

section Dull
variable {s : List Char}

theorem printable_append {a b : List Char} : Printable (a ++ b) ↔ Printable a ∧ Printable b :=
  List.forall_mem_append

theorem Printable.calm (printable : Printable s) : Calm s := by
  intro c member
  obtain ⟨low, high⟩ := printable c member
  refine Bool.eq_false_iff.mpr fun acts => ?_
  have range := range_of_steers acts
  omega

theorem dull_append {a b : List Char} : Dull (a ++ b) ↔ Dull a ∧ Dull b := by
  constructor
  · rintro ⟨printable, bracket, colon⟩
    rw [List.mem_append, not_or] at bracket colon
    obtain ⟨left, right⟩ := printable_append.mp printable
    exact ⟨⟨left, bracket.1, colon.1⟩, ⟨right, bracket.2, colon.2⟩⟩
  · rintro ⟨left, right⟩
    refine ⟨printable_append.mpr ⟨left.printable, right.printable⟩, ?_, ?_⟩
    · rw [List.mem_append, not_or]
      exact ⟨left.noBracket, right.noBracket⟩
    · rw [List.mem_append, not_or]
      exact ⟨left.noColon, right.noColon⟩

theorem dull_plain {base : Nat} (small : base ≤ 10) (plain : Plain base s) : Dull s := by
  have digit : ∀ c ∈ s, 48 ≤ c.toNat ∧ c.toNat < 58 := fun c member => by
    obtain ⟨low, high⟩ := plain c member
    omega
  refine ⟨fun c member => ?_, fun member => ?_, fun member => ?_⟩
  · have range := digit c member
    omega
  · exact absurd (digit _ member).2 (by decide)
  · exact absurd (digit _ member).2 (by decide)

end Dull

/-! ## Texts that are read one by one -/

/-! ## Lines -/

def lineAt (printed : String) (k : Nat) : List Char := (splitAtLineFeeds printed.toList).getD k []

theorem splitAtLineFeeds_append {a : List Char} (noFeed : '\n' ∉ a) (b : List Char) :
    splitAtLineFeeds (a ++ '\n' :: b) = a :: splitAtLineFeeds b := by
  induction a with
  | nil => rfl
  | cons c a ih =>
      rw [List.mem_cons, not_or] at noFeed
      have shape (s : List Char) : splitAtLineFeeds (c :: s) = Text.consLine c (splitAtLineFeeds s) := by
        rw [splitAtLineFeeds, List.foldr_cons, if_neg (Ne.symm noFeed.1), ← splitAtLineFeeds]
      rw [List.cons_append, shape, ih noFeed.2, Text.consLine]

theorem splitAtLineFeeds_lines {ls : List (List Char)} (noFeed : ∀ l ∈ ls, '\n' ∉ l)
    (behind : List Char) : splitAtLineFeeds (ls.flatMap (· ++ ['\n']) ++ behind) =
      ls ++ splitAtLineFeeds behind := by
  induction ls with
  | nil => rfl
  | cons l ls ih =>
      obtain ⟨own, rest⟩ := List.forall_mem_cons.mp noFeed
      rw [List.flatMap_cons, List.append_assoc, List.append_assoc, List.singleton_append,
        splitAtLineFeeds_append own, ih rest, List.cons_append]

theorem lineAt_of_lines {printed : String} {lines : List (List Char)} {behind : List Char}
    (shape : printed.toList = lines.flatMap (· ++ ['\n']) ++ behind) (solid : ∀ l ∈ lines, '\n' ∉ l)
    {k : Nat} {l : List Char} (there : lines[k]? = some l) : lineAt printed k = l := by
  obtain ⟨inside, rfl⟩ := List.getElem?_eq_some_iff.mp there
  rw [lineAt, shape, splitAtLineFeeds_lines solid, List.getD_append _ _ _ _ inside,
    List.getD_eq_getElem _ _ inside]

/-! ## The library -/

namespace Rich

variable (rich : Rich)

def Readable (s : String) : Prop := ∃ t, rich.read s = .ok t

def shown (s : String) : List Char := (rich.read s).toOption.getD []

def fit (a : Align) (width : Nat) (s : List Char) : List Char :=
  let space := List.replicate (width - rich.cells s) ' '
  match a with
  | .left => s ++ space
  | .right => space ++ s

/-- A line of texts, with a blank on both sides of each, and borders between them and at the ends. -/
def rowLine (e : Edge) (sized : List (Column × Nat)) (row : List (List Char)) : List Char :=
  e.left :: List.intercalate [e.between]
    (List.zipWith (fun c s => ' ' :: rich.fit c.1.align c.2 s ++ [' ']) sized row) ++ [e.right]

/-- The columns of a table with their widths: each is as wide as its widest text. -/
def sized (columns : List Column) (rows : List (List String)) : List (Column × Nat) :=
  columns.zip (columns.mapIdx fun k c =>
    (rows.map fun r => rich.cells (rich.shown (r.getD k ""))).foldl max (rich.cells c.header.toList))

/-- How many cells a line of such columns takes. -/
def lineWidth (sized : List (Column × Nat)) : Nat := sized.foldr (fun c n => c.2 + 3 + n) 1

def Fits (columns : List Column) (rows : List (List String)) : Prop :=
  lineWidth (rich.sized columns rows) ≤ rich.width

instance (columns : List Column) (rows : List (List String)) : Decidable (rich.Fits columns rows) :=
  inferInstanceAs (Decidable (_ ≤ _))

/-- The lines of a table: the headers stand on the second one, the rows from the fourth one on, each
text without some of the blanks at its end. -/
structure Lined (f : Frame) (columns : List Column) (rows : List (List String))
    (shave : Nat → List Char → List Char) (lines : List (List Char)) : Prop where
  solid : ∀ l ∈ lines, '\n' ∉ l
  header : lines[1]? = some (rich.rowLine f.row (rich.sized columns rows)
    (columns.map fun c => c.header.toList))
  shaved : ∀ width s, ∃ blanks, Blanks blanks ∧ shave width s ++ blanks = s
  row : ∀ i (inside : i < rows.length), lines[3 + i]? =
    some (rich.rowLine f.row (rich.sized columns rows)
      (List.zipWith (fun c s => shave c.2 (rich.shown s)) (rich.sized columns rows) rows[i]))

/-- A table with a text in each column of a row, and with dull headers. -/
structure Regular (columns : List Column) (rows : List (List String)) : Prop where
  filled : rows ≠ []
  even : ∀ row ∈ rows, row.length = columns.length
  headers : ∀ c ∈ columns, Dull c.header.toList

/-- A text that is neither markup nor part of it. -/
structure Untouched (s : List Char) : Prop where
  calm : Calm s
  noBracket : '[' ∉ s
  noColon : ':' ∉ s
  noSlash : '\\' ∉ s

instance (s : List Char) : Decidable (Untouched s) :=
  decidable_of_iff (Calm s ∧ '[' ∉ s ∧ ':' ∉ s ∧ '\\' ∉ s)
    ⟨fun ⟨calm, bracket, colon, slash⟩ => ⟨calm, bracket, colon, slash⟩,
      fun whole => ⟨whole.calm, whole.noBracket, whole.noColon, whole.noSlash⟩⟩

/-- The name of a style: small letters. -/
def StyleName (tag : List Char) : Prop := tag ≠ [] ∧ ∀ c ∈ tag, 'a' ≤ c ∧ c ≤ 'z'

instance (tag : List Char) : Decidable (StyleName tag) :=
  have := List.decidableBAll (fun c => 'a' ≤ c ∧ c ≤ 'z') tag
  inferInstanceAs (Decidable (_ ∧ _))

/-- What the library is documented to do. -/
structure Documented : Prop where
  -- a text is as it is without brackets and codes; no emoji is called by a number of two digits
  bare : ∀ s : String, Calm s.toList → '[' ∉ s.toList →
    (∀ name ∈ codes s.toList, ∃ n < 100, name = (Text.padded 2 n).toList) → rich.read s = .ok s.toList
  -- the name of a style in brackets vanishes, and with a slash it needs one before that it closes
  opening : ∀ x tag y, Untouched x → StyleName tag → Untouched y →
    rich.read (String.ofList (x ++ '[' :: (tag ++ ']' :: y))) = .ok (x ++ y)
  closing : ∀ x tag y, Untouched x → StyleName tag → Untouched y →
    ¬ rich.Readable (String.ofList (x ++ '[' :: '/' :: (tag ++ ']' :: y)))
  calm : ∀ s t, rich.read s = .ok t → Calm s.toList → Calm t
  -- a printable character takes a cell, whatever it follows, but a joiner before it may hide it
  narrow : ∀ s, Printable s → rich.cells s = s.length
  front : ∀ a b, rich.cells a ≤ rich.cells (a ++ b)
  behind : ∀ a s, (∀ c ∈ s, (0x20 ≤ c.toNat ∧ c.toNat < 0x7F) ∨ c = '│') →
    rich.cells a + s.length ≤ rich.cells (a ++ s) + 1
  prints : ∀ f columns rows, Regular columns rows →
    ((∃ table, rich.print f columns rows = .ok table) ↔ ∀ row ∈ rows, ∀ s ∈ row, rich.Readable s)
  lined : ∀ f ∈ [rounded, plain], ∀ columns rows table, Regular columns rows → rich.Fits columns rows →
    (∀ row ∈ rows, ∀ s ∈ row, Calm (rich.shown s)) → rich.print f columns rows = .ok table →
      ∃ shave lines, table.toList = lines.flatMap (· ++ ['\n']) ∧ rich.Lined f columns rows shave lines

/-! ## Columns at the two ends of a line -/

section Columns
variable {rich : Rich} {e : Edge} {c : Column} {w : Nat} {s : List Char} {sized : List (Column × Nat)}
  {row : List (List Char)}

theorem le_foldl_max {ns : List Nat} {n : Nat} (member : n ∈ ns) (m : Nat) : n ≤ ns.foldl max m := by
  rw [List.foldl_max]
  exact Nat.le_trans (List.le_max?_getD_of_mem member) (Nat.le_max_right _ _)

theorem foldl_max_ge (ns : List Nat) (m : Nat) : m ≤ ns.foldl max m := by
  rw [List.foldl_max]
  exact Nat.le_max_left _ _

theorem header_fits (rich : Rich) (columns : List Column) (rows : List (List String)) :
    ∀ p ∈ rich.sized columns rows, rich.cells p.1.header.toList ≤ p.2 := by
  intro p inside
  obtain ⟨k, inRange, rfl⟩ := List.mem_iff_getElem.mp inside
  simp only [Rich.sized, List.getElem_zip, List.getElem_mapIdx]
  exact foldl_max_ge _ _

theorem text_fits (rich : Rich) (columns : List Column) {rows : List (List String)} {row : List String}
    (member : row ∈ rows) :
    ∀ p ∈ (rich.sized columns rows).zip row, rich.cells (rich.shown p.2) ≤ p.1.2 := by
  intro p inside
  obtain ⟨k, inRange, rfl⟩ := List.mem_iff_getElem.mp inside
  rw [List.length_zip, Nat.lt_min] at inRange
  simp only [Rich.sized, List.getElem_zip, List.getElem_mapIdx]
  refine le_foldl_max (List.mem_map.mpr ⟨row, member, ?_⟩) _
  rw [List.getD_eq_getElem _ _ inRange.2]

/-- The first text of a line, when the same border stands behind it and at the end. -/
theorem rowLine_first (rich : Rich) (same : e.between = e.right) : ∃ rest,
    rich.rowLine e ((c, w) :: sized) (s :: row) =
      e.left :: ' ' :: (rich.fit c.align w s ++ ' ' :: e.right :: rest) := by
  rw [rowLine, List.zipWith_cons_cons, same]
  cases List.zipWith (fun c s => ' ' :: rich.fit c.1.align c.2 s ++ [' ']) sized row with
  | nil => exact ⟨[], by simp⟩
  | cons l ls =>
      rw [List.intercalate_cons_cons]
      exact ⟨List.intercalate [e.right] (l :: ls) ++ [e.right], by simp⟩

def frontLine (rich : Rich) (e : Edge) (sized : List (Column × Nat)) (row : List (List Char)) :
    List Char :=
  e.left :: (List.zipWith (fun c s => ' ' :: rich.fit c.1.align c.2 s ++ [' ', e.between])
    sized row).flatten ++ [' ']

/-- How long that is: a column takes its width, the blanks about its text and the border behind it. -/
def frontWidth (sized : List (Column × Nat)) : Nat := sized.foldr (fun c n => c.2 + 3 + n) 2

theorem intercalate_concat (sep : List Char) (ls : List (List Char)) (l : List Char) :
    sep.intercalate (ls ++ [l]) = (ls.map (· ++ sep)).flatten ++ l := by
  induction ls with
  | nil => simp
  | cons l' ls ih =>
      obtain ⟨m, ms, shape⟩ := List.exists_cons_of_ne_nil (l := ls ++ [l]) (by simp)
      rw [List.cons_append, shape, List.intercalate_cons_cons, ← shape, ih]
      simp only [List.map_cons, List.flatten_cons, List.append_assoc]

theorem rowLine_last (even : sized.length = row.length) :
    rich.rowLine e (sized ++ [(c, w)]) (row ++ [s]) =
      rich.frontLine e sized row ++ (rich.fit c.align w s ++ [' ', e.right]) := by
  rw [rowLine, List.zipWith_append even, List.zipWith_cons_cons, List.zipWith_nil_left,
    intercalate_concat, List.map_zipWith, frontLine]
  simp only [List.append_assoc, List.cons_append, List.nil_append]

theorem not_mem_fit {d : Char} (bare : d ∉ s) (solid : d ≠ ' ') (a : Align) (width : Nat) :
    d ∉ rich.fit a width s := by
  cases a <;> simp [fit, bare, solid, List.mem_replicate]

theorem of_mem_zipWith {α β γ : Type} {f : α → β → γ} {l : List α} {m : List β} {c : γ}
    (listed : c ∈ List.zipWith f l m) : ∃ p ∈ l.zip m, f p.1 p.2 = c := by
  rw [← List.map_uncurry_zip_eq_zipWith] at listed
  exact List.mem_map.mp listed

theorem not_mem_frontLine {d : Char} (bare : ∀ s ∈ row, d ∉ s) (solid : d ≠ ' ') (left : d ≠ e.left)
    (between : d ≠ e.between) : d ∉ rich.frontLine e sized row := by
  simp only [frontLine, List.mem_append, List.mem_cons, List.not_mem_nil, or_false, not_or,
    List.mem_flatten, not_exists, not_and]
  refine ⟨⟨left, fun l listed => ?_⟩, solid⟩
  obtain ⟨p, member, rfl⟩ := of_mem_zipWith listed
  have own : d ∉ rich.fit p.1.1.align p.1.2 p.2 :=
    not_mem_fit (bare p.2 (List.of_mem_zip member).2) solid p.1.1.align p.1.2
  simp [own, solid, between]

theorem length_frontLine_cons (c : Column × Nat) (s : List Char) :
    (rich.frontLine e (c :: sized) (s :: row)).length =
      (rich.fit c.1.align c.2 s).length + 3 + (rich.frontLine e sized row).length := by
  simp only [frontLine, List.zipWith_cons_cons, List.flatten_cons, List.length_append,
    List.length_cons, List.length_nil]
  omega

namespace Documented

variable (documented : rich.Documented)
include documented

theorem length_fit (printable : Printable s) (fits : rich.cells s ≤ w) (a : Align) :
    (rich.fit a w s).length = w := by
  rw [documented.narrow s printable] at fits
  cases a <;> simp [fit, documented.narrow s printable] <;> omega

/-- Where the last text begins does not depend on printable texts in front of it. -/
theorem length_frontLine (even : sized.length = row.length) (printable : ∀ s ∈ row, Printable s)
    (fits : ∀ p ∈ sized.zip row, rich.cells p.2 ≤ p.1.2) :
    (rich.frontLine e sized row).length = frontWidth sized := by
  induction sized generalizing row with
  | nil => rfl
  | cons c sized ih =>
      cases row with
      | nil => cases even
      | cons s row =>
          obtain ⟨own, others⟩ := List.forall_mem_cons.mp printable
          rw [List.zip_cons_cons, List.forall_mem_cons] at fits
          rw [length_frontLine_cons, ih (Nat.succ.inj even) others fits.2,
            documented.length_fit own fits.1, frontWidth, frontWidth, List.foldr_cons]

theorem read_dull {s : String} (dull : Dull s.toList) : rich.read s = .ok s.toList := by
  refine documented.bare s dull.printable.calm dull.noBracket fun name listed => ?_
  rw [codes_of_noColon dull.noColon] at listed
  cases listed

end Documented

theorem shown_of_read {s : String} {t : List Char} (read : rich.read s = .ok t) : rich.shown s = t := by
  rw [shown, read]
  rfl

theorem Readable.read {s : String} (readable : rich.Readable s) : rich.read s = .ok (rich.shown s) := by
  obtain ⟨t, read⟩ := readable
  rw [shown_of_read read, read]

end Columns

end Rich

end FileQuery.Table
