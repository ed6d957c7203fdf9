import FileQuery.Proofs.Config.Merge

/-! # Merging sections in memory

Sections in memory are cells with an address each, and an entry that is a section holds the address of
its cell, so that several sections may share one. A merge copies the cell of the base, one level deep,
and lays the entries of the other section over the copy, which it changes in place; where both hold a
section it does the same one level below (`Lays`, `Merges`). Such a merge comes to an end, what it makes
holds what `merge` says, and every cell that was there before is as it was (`exists_merges`,
`Merges.sound`). -/
set_option autoImplicit false
namespace FileQuery.Config

open Json (Value setEntry)

/-- What an entry of a cell holds: a value that is no section, or the address of a cell. -/
inductive Slot where
  | value (v : Value)
  | cell (address : Nat)

abbrev Cell := List (String × Slot)

/-- All sections in memory; the place in the list is the address. -/
abbrev Cells := List Cell

/-- Sets a slot of a cell; a new one goes to the end. -/
def setSlot (key : String) (slot : Slot) : Cell → Cell
  | [] => [(key, slot)]
  | (k, old) :: c => if k = key then (k, slot) :: c else (k, old) :: setSlot key slot c

/-- Lays entries over the cell at an address, one after the other. Where an entry and what stands under
its key are both sections, the one that stands there is copied to a new address, the entries of the
other one are laid over the copy, and the address of the copy is set; any other entry is set as it
is. -/
inductive Lays : Cells → Nat → Cell → Cells → Prop
  | done {cells : Cells} {target : Nat} : Lays cells target [] cells
  | within {cells filled cells' : Cells} {target x y : Nat} {key : String} {own below upper rest : Cell}
      (here : cells[target]? = some own) (stood : own.lookup key = some (.cell x))
      (base : cells[x]? = some below) (other : cells[y]? = some upper)
      (inner : Lays (cells ++ [below]) cells.length upper filled)
      (others : Lays (filled.modify target (setSlot key (.cell cells.length))) target rest cells') :
      Lays cells target ((key, .cell y) :: rest) cells'
  | entry {cells cells' : Cells} {target : Nat} {key : String} {slot : Slot} {own rest : Cell}
      (here : cells[target]? = some own)
      (single : ∀ x y, own.lookup key = some (.cell x) → slot ≠ .cell y)
      (others : Lays (cells.modify target (setSlot key slot)) target rest cells') :
      Lays cells target ((key, slot) :: rest) cells'

/-- Merges the sections at two addresses: the first is copied to a new address, where the result then
stands, and the entries of the second are laid over the copy. -/
def Merges (cells : Cells) (base upper : Nat) (cells' : Cells) (result : Nat) : Prop :=
  ∃ own entries, cells[base]? = some own ∧ cells[upper]? = some entries ∧ result = cells.length ∧
    Lays (cells ++ [own]) cells.length entries cells'

/-! ## What cells hold -/

mutual

/-- The value that a slot holds, where cells are read by their addresses. -/
inductive Holds (read : Nat → Option Cell) : Slot → Value → Prop
  | value {v : Value} (leaf : IsLeaf v) : Holds read (.value v) v
  | cell {address : Nat} {c : Cell} {es : Section} (found : read address = some c)
      (entries : HoldsAll read c es) : Holds read (.cell address) (.object es)

inductive HoldsAll (read : Nat → Option Cell) : Cell → Section → Prop
  | nil : HoldsAll read [] []
  | cons {key : String} {slot : Slot} {v : Value} {c : Cell} {es : Section} (first : Holds read slot v)
      (rest : HoldsAll read c es) : HoldsAll read ((key, slot) :: c) ((key, v) :: es)

end

section Holds
variable {read read' : Nat → Option Cell} {key : String} {slot : Slot} {v : Value} {c : Cell}
  {es : Section}

mutual

theorem Holds.mono (more : ∀ a c, read a = some c → read' a = some c) {slot : Slot} {v : Value}
    (holds : Holds read slot v) : Holds read' slot v := by
  cases holds with
  | value leaf => exact .value leaf
  | cell found entries => exact .cell (more _ _ found) (entries.mono more)

theorem HoldsAll.mono (more : ∀ a c, read a = some c → read' a = some c) {c : Cell} {es : Section}
    (holds : HoldsAll read c es) : HoldsAll read' c es := by
  cases holds with
  | nil => exact .nil
  | cons first rest => exact .cons (first.mono more) (rest.mono more)

end

theorem HoldsAll.lookup (holds : HoldsAll read c es) (key : String) :
    c.lookup key = none ∧ es.lookup key = none ∨
      ∃ slot v, c.lookup key = some slot ∧ es.lookup key = some v ∧ Holds read slot v := by
  induction c generalizing es with
  | nil =>
      cases holds
      exact .inl ⟨rfl, rfl⟩
  | cons e c ih =>
      cases holds with
      | @cons k slot v _ es first rest =>
          by_cases same : key = k
          · subst same
            exact .inr ⟨slot, v, List.lookup_cons_self, List.lookup_cons_self, first⟩
          · rw [List.lookup_cons, List.lookup_cons, beq_false_of_ne same]
            exact ih rest

theorem HoldsAll.set (holds : HoldsAll read c es) (put : Holds read slot v) :
    HoldsAll read (setSlot key slot c) (setEntry key v es) := by
  induction c generalizing es with
  | nil =>
      cases holds
      exact .cons put .nil
  | cons e c ih =>
      cases holds with
      | @cons k old w _ es first rest =>
          rw [setSlot, setEntry]
          by_cases same : k = key
          · rw [if_pos same, if_pos same]
            exact .cons put rest
          · rw [if_neg same, if_neg same]
            exact .cons first (ih rest)

theorem overlay_of_single (holds : HoldsAll read c es) (put : Holds read slot v)
    (single : ∀ x y, c.lookup key = some (.cell x) → slot ≠ .cell y) :
    overlay v (es.lookup key) = v := by
  rcases overlay_cases v (es.lookup key) with ⟨inner, bs, rfl, stood, -⟩ | ⟨-, same⟩
  · cases put with
    | cell found entries =>
        rcases holds.lookup key with ⟨-, none⟩ | ⟨slot, w, listed, found, below⟩
        · cases none.symm.trans stood
        · obtain rfl := Option.some.inj (found.symm.trans stood)
          cases below with
          | cell => exact absurd rfl (single _ _ listed)
          | value leaf => exact absurd rfl (leaf bs)
    | value leaf => exact absurd rfl (leaf inner)
  · exact same

end Holds

/-! ## A merge under way -/

def settled (cells : Cells) (filling : List Nat) (a : Nat) : Option Cell :=
  if a ∈ filling then none else cells[a]?

theorem settled_eq_some {cells : Cells} {filling : List Nat} {a : Nat} {c : Cell} :
    settled cells filling a = some c ↔ a ∉ filling ∧ cells[a]? = some c := by
  rw [settled]
  by_cases member : a ∈ filling
  · simp [member]
  · simp [member]

/-- A cell that is being filled holds the entries of a section so far, and none of them leads to a cell
that is being filled. -/
structure Fills (cells : Cells) (filling : List Nat) (target : Nat) (own : Cell) (bs : Section) :
    Prop where
  member : target ∈ filling
  present : ∀ a ∈ filling, a < cells.length
  here : cells[target]? = some own
  holds : HoldsAll (settled cells filling) own bs

def KeepsBut (target : Nat) (cells cells' : Cells) : Prop :=
  ∀ a < cells.length, a ≠ target → cells'[a]? = cells[a]?

section Fills
variable {cells filled cells' : Cells} {filling : List Nat} {target x : Nat} {own below : Cell}
  {key : String} {slot : Slot} {v : Value} {bs inner : Section}

/-- A change of a cell that is being filled is not seen in those that are settled. -/
theorem settled_modify (member : target ∈ filling) (change : Cell → Cell) :
    settled (cells.modify target change) filling = settled cells filling := by
  funext a
  rw [settled, settled]
  by_cases hidden : a ∈ filling
  · rw [if_pos hidden, if_pos hidden]
  · have other : target ≠ a := by
      rintro rfl
      exact hidden member
    rw [if_neg hidden, if_neg hidden, List.getElem?_modify_ne change cells other]

theorem keepsBut_modify (change : Cell → Cell) :
    KeepsBut target cells (cells.modify target change) :=
  fun _ _ other => List.getElem?_modify_ne change cells (Ne.symm other)

theorem settled_append (fresh : Cell) (a : Nat) (c : Cell)
    (found : settled cells filling a = some c) :
    settled (cells ++ [fresh]) (cells.length :: filling) a = some c := by
  rw [settled_eq_some] at found ⊢
  have before : a < cells.length := (List.getElem?_eq_some_iff.mp found.2).1
  refine ⟨?_, by rw [List.getElem?_append_left before, found.2]⟩
  rw [List.mem_cons, not_or]
  exact ⟨Nat.ne_of_lt before, found.1⟩

namespace Fills

theorem put (key : String) (fills : Fills cells filling target own bs)
    (holds : Holds (settled cells filling) slot v) :
    Fills (cells.modify target (setSlot key slot)) filling target (setSlot key slot own)
      (setEntry key v bs) where
  member := fills.member
  present := by
    rw [List.length_modify]
    exact fills.present
  here := by
    rw [List.getElem?_modify_eq, fills.here]
    rfl
  holds := by
    rw [settled_modify fills.member]
    exact fills.holds.set holds

theorem copy (present : ∀ a ∈ filling, a < cells.length)
    (holds : HoldsAll (settled cells filling) below inner) :
    Fills (cells ++ [below]) (cells.length :: filling) cells.length below inner where
  member := List.mem_cons_self
  present := by
    rw [List.length_append, List.length_singleton]
    refine List.forall_mem_cons.mpr ⟨Nat.lt_succ_self _, fun a member => ?_⟩
    exact Nat.lt_succ_of_lt (present a member)
  here := List.getElem?_concat_length
  holds := holds.mono (settled_append below)

theorem first (holds : HoldsAll (settled cells []) below inner) :
    Fills (cells ++ [below]) [cells.length] cells.length below inner :=
  copy (fun _ member => nomatch member) holds

/-- When the copy is filled, the cell above is as it was, and the copy is settled. -/
theorem leave {own' : Cell} {merged : Section} (fills : Fills cells filling target own bs)
    (kept : KeepsBut cells.length (cells ++ [below]) filled)
    (full : Fills filled (cells.length :: filling) cells.length own' merged) :
    Fills filled filling target own bs ∧
      Holds (settled filled filling) (.cell cells.length) (.object merged) ∧
      ∀ a c, settled cells filling a = some c → settled filled filling a = some c := by
  have stays (a : Nat) (before : a < cells.length) : filled[a]? = cells[a]? := by
    rw [kept a (by rw [List.length_append]; omega) (Nat.ne_of_lt before),
      List.getElem?_append_left before]
  have more (a : Nat) (c : Cell) (found : settled cells filling a = some c) :
      settled filled filling a = some c := by
    rw [settled_eq_some] at found ⊢
    exact ⟨found.1, (stays a (List.getElem?_eq_some_iff.mp found.2).1).trans found.2⟩
  have new : cells.length ∉ filling := fun member => Nat.lt_irrefl _ (fills.present _ member)
  refine ⟨⟨fills.member, fun a member => full.present a (List.mem_cons_of_mem _ member), ?_,
    fills.holds.mono more⟩, ?_, more⟩
  · rw [stays target (fills.present target fills.member), fills.here]
  · refine .cell (settled_eq_some.mpr ⟨new, full.here⟩) (full.holds.mono fun a c found => ?_)
    rw [settled_eq_some, List.mem_cons, not_or] at found
    exact settled_eq_some.mpr ⟨found.1.2, found.2⟩

end Fills

/-- What is under a key of a cell that is being filled, if it is the address of a cell. -/
theorem Fills.stands (fills : Fills cells filling target own bs)
    (stood : own.lookup key = some (.cell x)) :
    ∃ below inner, cells[x]? = some below ∧ bs.lookup key = some (.object inner) ∧
      HoldsAll (settled cells filling) below inner := by
  rcases fills.holds.lookup key with ⟨none, -⟩ | ⟨slot, v, found, listed, holds⟩
  · cases none.symm.trans stood
  · obtain rfl := Option.some.inj (found.symm.trans stood)
    cases holds with
    | @cell _ c es read entries =>
        exact ⟨c, es, (settled_eq_some.mp read).2, listed, entries⟩

end Fills

/-! ## A whole merge -/

section Lays
variable {cells cells' : Cells} {filling : List Nat} {target : Nat} {own upper : Cell}
  {bs os : Section}

/-- Entries that are laid over a cell change no other cell that was there, and leave it with what
`merge` says. -/
theorem Lays.sound (lays : Lays cells target upper cells') :
    ∀ {filling : List Nat} {own : Cell} {bs os : Section}, Fills cells filling target own bs →
      HoldsAll (settled cells filling) upper os →
      KeepsBut target cells cells' ∧ ∃ own', Fills cells' filling target own' (merge bs os) := by
  induction lays with
  | done =>
      intro filling own bs os fills laid
      cases laid
      exact ⟨fun _ _ _ => rfl, own, by rwa [merge]⟩
  | @within cells filled cells' target x y key own below upper rest here stood base other _ _ inner
      others =>
      intro filling own' bs os fills laid
      obtain rfl := Option.some.inj (here.symm.trans fills.here)
      obtain ⟨below', bs', base', found, own⟩ := fills.stands stood
      obtain rfl := Option.some.inj (base.symm.trans base')
      cases laid with
      | cons first laid =>
          cases first with
          | cell read entries =>
              obtain rfl := Option.some.inj (other.symm.trans (settled_eq_some.mp read).2)
              obtain ⟨kept, made, full⟩ := inner (Fills.copy fills.present own)
                (entries.mono (settled_append below))
              obtain ⟨above, holds, more⟩ := fills.leave kept full
              have next := above.put key holds
              obtain ⟨kept', last⟩ := others next (by
                rw [settled_modify fills.member]
                exact laid.mono more)
              rw [merge_cons, found, overlay_object]
              refine ⟨fun a before ne => ?_, last⟩
              have short : a < (cells ++ [below]).length := by
                rw [List.length_append]
                omega
              have grown : a < filled.length := by
                have := full.present cells.length List.mem_cons_self
                omega
              rw [kept' a (by rwa [List.length_modify]) ne, keepsBut_modify _ a grown ne,
                kept a short (Nat.ne_of_lt before), List.getElem?_append_left before]
  | @entry cells cells' target key slot own rest here single _ others =>
      intro filling own' bs os fills laid
      obtain rfl := Option.some.inj (here.symm.trans fills.here)
      cases laid with
      | @cons _ _ v _ os first laid =>
          obtain ⟨kept, last⟩ := others (fills.put key first) (by
            rwa [settled_modify fills.member])
          rw [merge_cons, overlay_of_single fills.holds first single]
          refine ⟨fun a before ne => ?_, last⟩
          rw [kept a (by rwa [List.length_modify]) ne, keepsBut_modify _ a before ne]

theorem exists_lays (keyed : Keyed os) :
    ∀ {cells : Cells} {filling : List Nat} {target : Nat} {own upper : Cell} {bs : Section},
      Fills cells filling target own bs → HoldsAll (settled cells filling) upper os →
      ∃ cells', Lays cells target upper cells' := by
  induction keyed with
  | nil =>
      intro cells filling target own upper bs fills laid
      cases laid
      exact ⟨cells, .done⟩
  | @cons key v os _ _ _ inner ih =>
      intro cells filling target own upper bs fills laid
      cases laid with
      | @cons _ slot _ rest _ first laid =>
          by_cases both : ∃ x y, own.lookup key = some (.cell x) ∧ slot = .cell y
          · obtain ⟨x, y, stood, rfl⟩ := both
            obtain ⟨below, bs', base, found, held⟩ := fills.stands stood
            cases first with
            | @cell _ upper es read entries =>
                have copied := Fills.copy fills.present held
                have seen := entries.mono (settled_append below)
                obtain ⟨filled, lays⟩ := inner es rfl copied seen
                obtain ⟨kept, made, full⟩ := lays.sound copied seen
                obtain ⟨above, holds, more⟩ := fills.leave kept full
                obtain ⟨cells', others⟩ := ih (above.put key holds) (by
                  rw [settled_modify fills.member]
                  exact laid.mono more)
                exact ⟨cells', .within fills.here stood base (settled_eq_some.mp read).2 lays others⟩
          · push Not at both
            obtain ⟨cells', others⟩ := ih (fills.put key first) (by
              rwa [settled_modify fills.member])
            exact ⟨cells', .entry fills.here both others⟩

end Lays

/-- A cell holds the entries of a section, down to those of every section within it. -/
def HoldsAt (cells : Cells) (address : Nat) (es : Section) : Prop :=
  Holds (fun a => cells[a]?) (.cell address) (.object es)

theorem settled_nil (cells : Cells) : settled cells [] = fun a => cells[a]? := rfl

theorem HoldsAt.entries {cells : Cells} {address : Nat} {es : Section}
    (holds : HoldsAt cells address es) :
    ∃ c, cells[address]? = some c ∧ HoldsAll (settled cells []) c es := by
  rw [HoldsAt, ← settled_nil] at holds
  cases holds with
  | @cell _ c _ read entries => exact ⟨c, read, entries⟩

section Merges
variable {cells cells' : Cells} {base upper result : Nat} {b o : Section}

/-- What is merged is a section of its own that holds what `merge` says, and every cell that was there
before is as it was. -/
theorem Merges.sound (merges : Merges cells base upper cells' result) (first : HoldsAt cells base b)
    (second : HoldsAt cells upper o) : HoldsAt cells' result (merge b o) ∧ cells <+: cells' := by
  obtain ⟨own, entries, stood, laid, rfl, lays⟩ := merges
  obtain ⟨own', stood', held⟩ := first.entries
  obtain rfl := Option.some.inj (stood.symm.trans stood')
  obtain ⟨entries', laid', held'⟩ := second.entries
  obtain rfl := Option.some.inj (laid.symm.trans laid')
  obtain ⟨kept, made, full⟩ := lays.sound (Fills.first held) (held'.mono (settled_append own))
  constructor
  · refine .cell full.here (full.holds.mono fun a c found => ?_)
    exact (settled_eq_some.mp found).2
  · rw [List.prefix_iff_getElem?]
    intro a before
    rw [kept a (by rw [List.length_append]; omega) (Nat.ne_of_lt before),
      List.getElem?_append_left before, List.getElem?_eq_getElem before]

theorem exists_merges (keyed : Keyed o) (first : HoldsAt cells base b)
    (second : HoldsAt cells upper o) : ∃ cells' result, Merges cells base upper cells' result := by
  obtain ⟨own, stood, held⟩ := first.entries
  obtain ⟨entries, laid, held'⟩ := second.entries
  obtain ⟨cells', lays⟩ := exists_lays keyed (Fills.first held) (held'.mono (settled_append own))
  exact ⟨cells', _, own, entries, stood, laid, rfl, lays⟩

/-- The laws of merging, the order of the keys included, and what a merge in memory does: it comes to an
end, and whenever it does, it has made what these laws are about and changed no cell that was there,
neither those of the base nor any other. -/
theorem merge_laws {o : Section} (keyed : Keyed o) (b : Section) :
    merge b [] = b ∧ merge [] o = o ∧ merge o o = o ∧ merge (merge b o) o = merge b o ∧
    (∀ path v, nodeAt? path (.object o) = some (.leaf v) →
      nodeAt? path (.object (merge b o)) = some (.leaf v)) ∧
    (∀ path v, nodeAt? path (.object b) = some (.leaf v) →
      (∀ p, p <+: path → ∀ w, nodeAt? p (.object o) ≠ some (.leaf w)) →
      (∀ keys, nodeAt? path (.object o) ≠ some (.branch keys)) →
      nodeAt? path (.object (merge b o)) = some (.leaf v)) ∧
    ∀ cells base upper, HoldsAt cells base b → HoldsAt cells upper o →
      (∃ cells' result, Merges cells base upper cells' result) ∧
      ∀ cells' result, Merges cells base upper cells' result →
        HoldsAt cells' result (merge b o) ∧ cells <+: cells' := by
  refine ⟨by rw [merge], merge_nil_left keyed, merge_self keyed, merge_merge keyed b,
    fun _ _ => leaf_of_override keyed, fun _ _ => leaf_of_base keyed, ?_⟩
  intro cells base upper first second
  exact ⟨exists_merges keyed first second, fun _ _ merges => merges.sound first second⟩

/-- A section that both have is merged: what only the base has in it stays, and the cell of the base is
none of those that were written. -/
theorem merge_laws_within :
    let b : Section := [("a", .object [("x", .int 1), ("y", .int 2)]), ("b", .int 1)]
    let o : Section := [("a", .object [("y", .int 3)]), ("c", .int 4)]
    let cells : Cells := [[("a", .cell 1), ("b", .value (.int 1))],
      [("x", .value (.int 1)), ("y", .value (.int 2))],
      [("a", .cell 3), ("c", .value (.int 4))], [("y", .value (.int 3))]]
    Keyed o ∧ merge (merge b o) o = merge b o ∧
      nodeAt? ["a", "y"] (.object (merge b o)) = some (.leaf (.int 3)) ∧
      nodeAt? ["a", "x"] (.object (merge b o)) = some (.leaf (.int 1)) ∧
      HoldsAt cells 0 b ∧ HoldsAt cells 2 o ∧
      ∃ cells' result, Merges cells 0 2 cells' result ∧ HoldsAt cells' result (merge b o) ∧
        cells <+: cells' := by
  intro b o cells
  have keyed : Keyed o := by
    refine .cons (by decide) ?_ (.cons (by decide) (fun c same => nomatch same) .nil)
    rintro c ⟨⟩
    exact .cons (by decide) (fun c same => nomatch same) .nil
  have number (n : Int) : IsLeaf (.int n) := fun es same => nomatch same
  have first : HoldsAt cells 0 b :=
    .cell rfl (.cons (.cell rfl (.cons (.value (number 1)) (.cons (.value (number 2)) .nil)))
      (.cons (.value (number 1)) .nil))
  have second : HoldsAt cells 2 o :=
    .cell rfl (.cons (.cell rfl (.cons (.value (number 3)) .nil)) (.cons (.value (number 4)) .nil))
  obtain ⟨-, -, -, again, override, kept, memory⟩ := merge_laws keyed b
  obtain ⟨⟨cells', result, merges⟩, each⟩ := memory cells 0 2 first second
  refine ⟨keyed, again, override _ _ rfl, kept _ _ rfl ?_ (fun keys same => nomatch same), first,
    second, cells', result, merges, each cells' result merges⟩
  intro p front w
  rcases List.prefix_cons_iff.mp front with rfl | ⟨q, rfl, within⟩
  · exact fun same => nomatch same
  · rcases List.prefix_cons_iff.mp within with rfl | ⟨r, rfl, last⟩
    · exact fun same => nomatch same
    · rw [List.prefix_nil.mp last]
      exact fun same => nomatch same

end Merges

end FileQuery.Config
