import FileQuery.Proofs.Table.Rich

/-! How markup is read. A text without brackets and codes of emoji is read as itself, the name of a style
in brackets vanishes, and one with a slash has nothing to close. -/
set_option autoImplicit false
namespace FileQuery.Table

open Text (isBlank trim)

/-! Emoji. -/

section Emoji
variable {c : Char} {name r s : List Char}

def IsEmoji (name : List Char) : Prop := emoji? (cutLook name).1 ≠ none

theorem inside_takeWhile (r : List Char) :
    Inside (r.takeWhile fun d => d != ':' && !isBlank d) := by
  intro d member
  have own := List.mem_takeWhile_imp member
  simpa using own

theorem replaceEmoji_eq_self (none : ∀ name ∈ codes s, ¬ IsEmoji name) : replaceEmoji s = s := by
  fun_induction replaceEmoji s with
  | case1 => rfl
  | case2 r name rest closed key look cut ih =>
      have split : r = name ++ ':' :: rest := by
        rw [← closed]
        exact (List.takeWhile_append_dropWhile).symm
      have paired : codes (':' :: r) = name :: codes rest := by
        rw [split, codes_pair (inside_takeWhile r)]
      have key_eq : (cutLook name).1 = key := congrArg Prod.fst cut
      rw [paired, List.forall_mem_cons, IsEmoji, key_eq, not_not] at none
      rw [none.1, ih none.2, split]
      simp
  | case3 r alone ih =>
      have same : codes (':' :: r) = codes r := by
        have split : r.takeWhile _ ++ r.dropWhile (fun d => d != ':' && !isBlank d) = r :=
          List.takeWhile_append_dropWhile
        rw [← split]
        refine codes_alone (inside_takeWhile r) fun d first => ?_
        obtain ⟨rest, shape⟩ := List.head?_eq_some_iff.mp first
        have colon : d ≠ ':' := by
          rintro rfl
          exact alone rest shape
        have stops := List.head?_dropWhile_not (fun d => d != ':' && !isBlank d) r
        rw [shape] at stops
        simpa [colon] using stops
      rw [ih (same ▸ none)]
  | case4 c r colon ih => rw [ih (codes_cons colon r ▸ none)]

theorem not_isEmoji_number {n : Nat} (small : n < 100) : ¬ IsEmoji (Text.padded 2 n).toList := by
  have each : ∀ n < 100, emoji? (cutLook (Text.padded 2 n).toList).1 = none := by decide +kernel
  exact not_not.mpr (each n small)

theorem range_of_emoji : ∀ e ∈ emojiNames, 0x2029 < e.2.toNat := by decide +kernel

theorem calm_emoji {e : String × Char} (listed : e ∈ emojiNames) : steers e.2 = false := by
  have high := range_of_emoji e listed
  refine Bool.eq_false_iff.mpr fun acts => ?_
  have range := range_of_steers acts
  omega

theorem calm_cutLook (name : List Char) : Calm (cutLook name).2 := by
  rw [cutLook]
  split
  · exact (by decide : Calm ['\uFE0F'])
  · split
    · exact (by decide : Calm ['\uFE0E'])
    · exact nofun

theorem Calm.replaceEmoji {s : List Char} (calm : Calm s) : Calm (replaceEmoji s) := by
  fun_induction Table.replaceEmoji s with
  | case1 => exact calm
  | case2 r name rest closed key look cut ih =>
      have split : r = name ++ ':' :: rest := by
        rw [← closed]
        exact (List.takeWhile_append_dropWhile).symm
      rw [split, calm_cons, calm_append, calm_cons] at calm
      obtain ⟨colon, own, -, behind⟩ := calm
      rw [calm_append]
      refine ⟨?_, ih behind⟩
      cases found : emoji? key with
      | some e =>
          rw [emoji?, Option.map_eq_some_iff] at found
          obtain ⟨entry, listed, rfl⟩ := found
          have look' := calm_cutLook name
          rw [cut] at look'
          exact calm_cons.mpr ⟨calm_emoji (List.mem_of_find?_eq_some listed), look'⟩
      | none => exact calm_append.mpr ⟨calm_cons.mpr ⟨colon, own⟩, calm_cons.mpr ⟨colon, nofun⟩⟩
  | case3 r alone ih => exact calm_cons.mpr ⟨(calm_cons.mp calm).1, ih (calm_cons.mp calm).2⟩
  | case4 c r colon ih => exact calm_cons.mpr ⟨(calm_cons.mp calm).1, ih (calm_cons.mp calm).2⟩

end Emoji

/-! Backslashes. -/

theorem dropBracketSlash_subset (s : List Char) : dropBracketSlash s ⊆ s := by
  fun_induction dropBracketSlash s with
  | case1 r ih => exact List.cons_subset.mpr ⟨by simp, fun c member => by simp [ih member]⟩
  | case2 c r plain ih => exact List.cons_subset_cons c ih
  | case3 => exact List.Subset.refl _

theorem dropBracketSlash_eq_self {s : List Char} (none : '\\' ∉ s) : dropBracketSlash s = s := by
  fun_induction dropBracketSlash s with
  | case1 r ih => exact absurd List.mem_cons_self none
  | case2 c r plain ih => rw [ih fun member => none (List.mem_cons_of_mem c member)]
  | case3 => rfl

/-! Tags. -/

/-- What may stand between the brackets of a tag. -/
def IsTag : List Char → Prop
  | [] => False
  | c :: body => startsTag c = true ∧ ∀ d ∈ body, d ≠ '[' ∧ d ≠ ']'

section Tags
variable {r s tag rest : List Char}

theorem cutTag?_eq_some_iff :
    cutTag? s = some (tag, rest) ↔ IsTag tag ∧ s = tag ++ ']' :: rest := by
  constructor
  · intro found
    cases s with
    | nil => cases found
    | cons c r =>
        rw [cutTag?] at found
        split at found
        · next starts =>
            split at found
            · next behind closed =>
                cases found
                refine ⟨⟨starts, fun d member => ?_⟩, ?_⟩
                · simpa using List.mem_takeWhile_imp member
                · rw [List.cons_append, ← closed, List.takeWhile_append_dropWhile]
            · cases found
        · cases found
  · rintro ⟨tagged, rfl⟩
    cases tag with
    | nil => cases tagged
    | cons c body =>
        obtain ⟨starts, inside⟩ := tagged
        have inBody : ∀ d ∈ body, (d != '[' && d != ']') = true := by simpa using inside
        rw [List.cons_append, cutTag?, if_pos starts]
        rw [List.takeWhile_append_of_pos inBody, List.dropWhile_append_of_pos inBody]
        simp

theorem of_tagHere? {k : Nat} (found : tagHere? s = some (k, tag, rest)) :
    IsTag tag ∧ s = List.replicate k '\\' ++ '[' :: (tag ++ ']' :: rest) := by
  rw [tagHere?] at found
  split at found
  · next r behind =>
      obtain ⟨⟨body, beyond⟩, cut, same⟩ := Option.map_eq_some_iff.mp found
      cases same
      obtain ⟨tagged, shape⟩ := cutTag?_eq_some_iff.mp cut
      refine ⟨tagged, ?_⟩
      have front : s.take (slashes s) = List.replicate (slashes s) '\\' := by
        rw [slashes, ← List.prefix_iff_eq_take.mp (List.takeWhile_prefix _), List.eq_replicate_iff]
        exact ⟨rfl, fun d member => by simpa using List.mem_takeWhile_imp member⟩
      rw [← shape, ← behind, ← front, List.take_append_drop]
  · cases found

theorem pieces_induction {motive : Nat → List Char → Prop} (nil : ∀ position, motive position [])
    (tag : ∀ position s k tag rest, tagHere? s = some (k, tag, rest) →
      motive (position + k + tag.length + 2) rest → motive position s)
    (cons : ∀ position c r, tagHere? (c :: r) = none → motive (position + 1) r →
      motive position (c :: r))
    (position : Nat) (s : List Char) : motive position s := by
  fun_induction pieces position s with
  | case1 position s k body rest found tail own many ih => exact tag position s k body rest found ih
  | case2 position s k body rest found tail own few ih => exact tag position s k body rest found ih
  | case3 position => exact nil position
  | case4 position c r none ih => exact cons position c r none ih

def texts : List Piece → List Char
  | [] => []
  | .plain s :: ps => s ++ texts ps
  | .tag _ _ :: ps => texts ps

theorem texts_prepend (c : Char) (ps : List Piece) :
    texts (Piece.prepend c ps) = c :: texts ps := by
  fun_cases Piece.prepend c ps with
  | case1 s ps => rfl
  | case2 ps other => rfl

theorem pieces_cons {c : Char} (none : tagHere? (c :: r) = none) (position : Nat) :
    pieces position (c :: r) = Piece.prepend c (pieces (position + 1) r) := by
  rw [pieces]
  split
  · next found =>
      rw [none] at found
      cases found
  · rfl

/-- A tag leaves half of its backslashes, and if their number is odd it stays itself. -/
theorem texts_pieces_tag {k : Nat} (found : tagHere? s = some (k, tag, rest)) (position : Nat) :
    texts (pieces position s) = List.replicate (k / 2) '\\' ++
      ((if k % 2 = 1 then '[' :: (tag ++ [']']) else []) ++
        texts (pieces (position + k + tag.length + 2) rest)) := by
  rw [pieces]
  split
  · next k' tag' rest' found' =>
      rw [found] at found'
      cases found'
      dsimp only
      split
      · split <;> simp [texts, *]
      · next few =>
          have half : k / 2 = 0 := by omega
          split <;> simp [texts, *]
  · next none =>
      rw [none] at found
      cases found

theorem Calm.texts_pieces (calm : Calm s) (position : Nat) : Calm (texts (pieces position s)) := by
  induction position, s using pieces_induction with
  | nil position =>
      rw [pieces]
      exact calm
  | tag position s k tag rest found ih =>
      obtain ⟨tagged, rfl⟩ := of_tagHere? found
      simp only [calm_append, calm_cons] at calm
      obtain ⟨slashes, open', inside, close, behind⟩ := calm
      rw [texts_pieces_tag found, calm_append, calm_append]
      refine ⟨fun c member => ?_, ?_, ih behind⟩
      · rw [List.eq_of_mem_replicate member]
        rfl
      · split
        · exact calm_cons.mpr ⟨open', calm_append.mpr ⟨inside, calm_cons.mpr ⟨close, nofun⟩⟩⟩
        · exact nofun
  | cons position c r none ih =>
      rw [calm_cons] at calm
      rw [pieces_cons none, texts_prepend]
      exact calm_cons.mpr ⟨calm.1, ih calm.2⟩

theorem pieces_nil (position : Nat) : pieces position [] = [] := by
  rw [pieces]
  rfl

theorem pieces_tag (tagged : IsTag tag) (position : Nat) (rest : List Char) :
    ∃ position' position'', pieces position ('[' :: (tag ++ ']' :: rest)) =
      .plain [] :: .tag position' tag :: pieces position'' rest := by
  have cut : cutTag? (tag ++ ']' :: rest) = some (tag, rest) := cutTag?_eq_some_iff.mpr ⟨tagged, rfl⟩
  have here : tagHere? ('[' :: (tag ++ ']' :: rest)) = some (0, tag, rest) := by
    simp [tagHere?, slashes, cut]
  rw [pieces]
  split
  · next found =>
      rw [here] at found
      cases found
      exact ⟨_, _, rfl⟩
  · next none =>
      rw [here] at none
      cases none

theorem pieces_untouched {x : List Char} (untouched : Rich.Untouched x) (position : Nat) (s : List Char) :
    pieces position (x ++ s) = x.foldr Piece.prepend (pieces (position + x.length) s) := by
  induction x generalizing position with
  | nil => rfl
  | cons c x ih =>
      obtain ⟨calm, bracket, colon, slash⟩ := untouched
      rw [List.mem_cons, not_or] at bracket colon slash
      have none : tagHere? (c :: (x ++ s)) = none := by
        have other : (c == '\\') = false := beq_false_of_ne (Ne.symm slash.1)
        simp only [tagHere?, slashes, List.takeWhile_cons, other]
        simp only [Bool.false_eq_true, if_false, List.length_nil, List.drop_zero]
        split
        · next same => exact absurd (List.cons.inj same).1.symm bracket.1
        · rfl
      have rest : Rich.Untouched x := ⟨(calm_cons.mp calm).2, bracket.2, colon.2, slash.2⟩
      rw [List.cons_append, pieces_cons none, ih rest, List.foldr_cons, List.length_cons,
        Nat.add_right_comm, Nat.add_assoc]

theorem foldr_prepend (x t : List Char) (ps : List Piece) :
    x.foldr Piece.prepend (.plain t :: ps) = .plain (x ++ t) :: ps := by
  induction x with
  | nil => rfl
  | cons c x ih => rw [List.foldr_cons, ih, Piece.prepend, List.cons_append]

theorem foldr_prepend_nil {x : List Char} (filled : x ≠ []) :
    x.foldr Piece.prepend [] = [.plain x] := by
  induction x with
  | nil => exact absurd rfl filled
  | cons c x ih =>
      rw [List.foldr_cons]
      by_cases last : x = []
      · rw [last]
        rfl
      · rw [ih last, Piece.prepend]

end Tags

/-! Whole texts. -/

section Read
variable {s t x tag y : List Char}

theorem calm_of_plainText {ps : List Piece} {opened : List (List Char)}
    (ok : plainText opened ps = .ok t) (calm : Calm (texts ps)) : Calm t := by
  fun_induction plainText opened ps generalizing t with
  | case1 opened =>
      cases ok
      exact calm
  | case2 opened s ps ih =>
      cases behind : plainText opened ps with
      | error e =>
          rw [behind] at ok
          cases ok
      | ok u =>
          rw [behind] at ok
          cases ok
          rw [texts, calm_append] at calm
          exact calm_append.mpr
            ⟨(calm.1.mono (dropBracketSlash_subset s)).replaceEmoji, ih behind calm.2⟩
  | case3 | case6 => cases ok
  | case4 | case5 | case7 =>
      next ih => exact ih ok calm

theorem readMarkup_bare (bare : '[' ∉ s) : readMarkup s = .ok (replaceEmoji s) := by
  rw [readMarkup, if_neg (by simpa using bare)]

theorem readMarkup_bracket (bracket : '[' ∈ s) : readMarkup s = plainText [] (pieces 0 s) := by
  rw [readMarkup, if_pos (by simpa using bracket)]

theorem calm_of_readMarkup (ok : readMarkup s = .ok t) (calm : Calm s) : Calm t := by
  by_cases bracket : '[' ∈ s
  · rw [readMarkup_bracket bracket] at ok
    exact calm_of_plainText ok (calm.texts_pieces 0)
  · rw [readMarkup_bare bracket] at ok
    cases ok
    exact calm.replaceEmoji

theorem shown_untouched (untouched : Rich.Untouched s) : replaceEmoji (dropBracketSlash s) = s := by
  rw [dropBracketSlash_eq_self untouched.noSlash, replaceEmoji_eq_self]
  rw [codes_of_noColon untouched.noColon]
  exact nofun

theorem plainText_untouched (untouched : Rich.Untouched y) (opened : List (List Char)) (position : Nat) :
    plainText opened (pieces position y) = .ok y := by
  have shape := pieces_untouched untouched position []
  rw [List.append_nil, pieces_nil] at shape
  rw [shape]
  by_cases empty : y = []
  · rw [empty]
    rfl
  · rw [foldr_prepend_nil empty]
    show Except.ok (replaceEmoji (dropBracketSlash y) ++ []) = _
    rw [shown_untouched untouched, List.append_nil]

theorem readMarkup_tag (tagged : IsTag tag) (left : Rich.Untouched x) :
    ∃ position position', readMarkup (x ++ '[' :: (tag ++ ']' :: y)) =
      (plainText [] (.tag position tag :: pieces position' y)).map (x ++ ·) := by
  obtain ⟨position, position', shape⟩ := pieces_tag tagged (0 + x.length) y
  refine ⟨position, position', ?_⟩
  rw [readMarkup_bracket (by simp), pieces_untouched left, shape, foldr_prepend, List.append_nil,
    plainText, shown_untouched left]
  cases plainText [] (.tag position tag :: pieces position' y) <;> rfl

theorem isTag_of_styleName (style : Rich.StyleName tag) : IsTag tag ∧ IsTag ('/' :: tag) := by
  have inside : ∀ c ∈ tag, startsTag c = true ∧ c ≠ '[' ∧ c ≠ ']' := by
    intro c member
    obtain ⟨low, high⟩ := style.2 c member
    refine ⟨by simp [startsTag, low, high], ?_, ?_⟩
    · rintro rfl
      exact absurd low (by decide)
    · rintro rfl
      exact absurd low (by decide)
  constructor
  · obtain ⟨c, body, rfl⟩ := List.exists_cons_of_ne_nil style.1
    exact ⟨(inside c List.mem_cons_self).1, fun d member => (inside d (List.mem_cons_of_mem c member)).2⟩
  · exact ⟨rfl, fun d member => (inside d member).2⟩

theorem tagName_styleName (style : Rich.StyleName tag) : tagName tag = tag := by
  refine List.takeWhile_eq_self_iff.mpr fun c member => ?_
  rw [bne_iff_ne]
  rintro rfl
  exact absurd (style.2 _ member).1 (by decide)

theorem readMarkup_opening (left : Rich.Untouched x) (style : Rich.StyleName tag)
    (right : Rich.Untouched y) : readMarkup (x ++ '[' :: (tag ++ ']' :: y)) = .ok (x ++ y) := by
  obtain ⟨position, position', shape⟩ := readMarkup_tag (y := y) (isTag_of_styleName style).1 left
  have opens : plainText [] (.tag position tag :: pieces position' y) =
      plainText [styleName tag] (pieces position' y) := by
    rw [plainText, tagName_styleName style]
    split
    · next name =>
        have slash := (style.2 '/' List.mem_cons_self).1
        exact absurd slash (by decide)
    · rfl
  rw [shape, opens, plainText_untouched right]
  rfl

theorem readMarkup_closing (left : Rich.Untouched x) (style : Rich.StyleName tag) :
    ∃ e, readMarkup (x ++ '[' :: (('/' :: tag) ++ ']' :: y)) = .error e := by
  obtain ⟨position, position', shape⟩ := readMarkup_tag (y := y) (isTag_of_styleName style).2 left
  have named : tagName ('/' :: tag) = '/' :: tag := by
    have own := tagName_styleName style
    rw [tagName] at own ⊢
    rw [List.takeWhile_cons_of_pos (by decide), own]
  have solid : ¬ (trim tag).isEmpty = true := by
    have trimmed : trim tag = tag := by
      have solid : ∀ c ∈ tag, isBlank c = false := by
        intro c member
        obtain ⟨low, high⟩ := style.2 c member
        have first : 97 ≤ c.toNat := UInt32.le_iff_toNat_le.mp low
        have last : c.toNat ≤ 122 := UInt32.le_iff_toNat_le.mp high
        refine Bool.eq_false_iff.mpr fun blank => ?_
        simp [isBlank] at blank
        omega
      exact Text.trim_eq_self_iff.mpr
        ⟨fun c first => solid c (List.mem_of_mem_head? first),
          fun c last => solid c (List.mem_of_mem_getLast? last)⟩
    rw [trimmed]
    simpa using style.1
  have stops : plainText [] (.tag position ('/' :: tag) :: pieces position' y) =
      .error (.unmatched ("[" ++ String.ofList ('/' :: tag) ++ "]") position) := by
    rw [plainText, named]
    simp only [solid]
    rfl
  rw [shape, stops]
  exact ⟨_, rfl⟩

end Read

end FileQuery.Table
