import FileQuery.Proofs.Codec.Unicode
import FileQuery.Proofs.Store.Fault

/-! Which faults changes of the store and reads and writes of texts stop at, in UTF-8. A change
looks for NULs in every path that it is given before anything else, so with one it changes nothing.
Without one only a tree that is too high stops a change at something that is no refusal, and only a
text with a lone surrogate a write. -/
set_option autoImplicit false
namespace FileQuery.Store

variable {s : Store}

/-! Changes of single entries. -/

section Entries
variable {path : String}

theorem refusable_makeFolder (plain : hasNul path = false) (s : Store) :
    Refusable (makeFolder path s).1 := by
  refine refusable_ofExcept ((refusable_locate plain s false).bind fun spot => ?_)
  cases spot with
  | free place => exact refusable_ok _
  | found place entry => exact refusable_os _

theorem makeFolder_of_hasNul (nul : hasNul path = true) (s : Store) :
    makeFolder path s = (.error .nulInPath, s) := by
  apply ofExcept_error
  rw [locate_of_hasNul nul]
  rfl

theorem refusable_removeFile (plain : hasNul path = false) (s : Store) :
    Refusable (removeFile path s).1 := by
  refine refusable_ofExcept ((refusable_stat plain s false).bind fun found => ?_)
  rcases found with ⟨place, entry⟩
  cases entry with
  | folder mode => exact refusable_os _
  | file bytes mode modified => exact refusable_ok _
  | link target => exact refusable_ok _

/-- A folder whose removal takes more calls than there is room for. -/
def TooHigh (s : Store) (path : String) : Prop :=
  ∃ place mode, s.stat false path = .ok (place, .folder mode) ∧ s.isHigher place s.nesting = true

theorem refusable_removeTree (plain : hasNul path = false) (low : ¬ s.TooHigh path) :
    Refusable (removeTree path s).1 := by
  unfold removeTree
  split
  · next f stopped => exact refusable_error (refusable_stat plain s false f stopped)
  · split
    · exact refusable_os _
    · next f stopped => exact refusable_error (refusable_stat plain s true f stopped)
  · exact refusable_os _
  · next place mode ends =>
      have fits : ¬ s.isHigher place s.nesting = true := fun high => low ⟨place, mode, ends, high⟩
      rw [if_neg fits]
      split
      · exact refusable_os _
      · exact refusable_ok _

theorem removeTree_of_tooHigh (high : s.TooHigh path) : (removeTree path s).1 = .error .nested := by
  obtain ⟨place, mode, ends, high⟩ := high
  rw [removeTree, ends]
  dsimp only
  rw [if_pos high]

theorem stray_removeTree (plain : hasNul path = false) :
    Stray (removeTree path s).1 ↔ s.TooHigh path := by
  by_cases high : s.TooHigh path
  · rw [removeTree_of_tooHigh high]
    exact iff_of_true (stray_error.mpr rfl) high
  · exact iff_of_false (refusable_removeTree plain high).not_stray high

theorem refusable_setMode (plain : hasNul path = false) (mode : Nat) (s : Store) :
    Refusable (setMode path mode s).1 :=
  refusable_ofExcept ((refusable_stat plain s true).bind fun _ => refusable_ok _)

theorem refusable_namesAt (plain : hasNul path = false) (s : Store) :
    Refusable (s.namesAt path) := by
  refine (refusable_stat plain s true).bind fun found => ?_
  rcases found with ⟨place, entry⟩
  cases entry with
  | folder mode => exact refusable_ok _
  | file bytes mode modified => exact refusable_os _
  | link target => exact refusable_os _

theorem refusable_ensureFolder (plain : hasNul path = false) (s : Store) :
    Refusable (ensureFolder path s).1 := by
  have made := refusable_makeFolder plain s
  unfold ensureFolder
  split
  · next f s' stopped =>
      split
      · exact refusable_ok ()
      · rwa [stopped] at made
  · exact made

theorem limited_ensureFolders : ∀ (n : Nat) {paths : List String} (s : Store),
    (∀ p ∈ paths, hasNul p = false) → Limited (ensureFolders n paths s).1 := by
  intro n paths
  induction n, paths using ensureFolders.induct with
  | case1 paths => exact fun _ _ => limited_nested
  | case2 n => exact fun _ _ => (refusable_ok ()).limited
  | case3 n path => exact fun s plain => (refusable_ensureFolder (plain path (by simp)) s).limited
  | case4 n path above rest ih =>
      intro s plain
      have own s := (refusable_ensureFolder (plain path (by simp)) s).limited
      have higher := ih s fun p member => plain p (List.mem_cons_of_mem _ member)
      unfold ensureFolders
      split
      · exact own s
      · split
        · exact own _
        · next stopped => rwa [stopped] at higher
        · exact own _

end Entries

/-! Transfers. -/

section Transfers
variable {source destination : String}

theorem refusable_move (plain : hasNul source = false) (plain' : hasNul destination = false)
    (s : Store) : Refusable (move source destination s).1 := by
  rw [hasNul] at plain plain'
  apply refusable_ofExcept
  simp only [plain, plain', Bool.or_false, Bool.false_eq_true, if_false]
  exact refusable_mapError _ fun e => .osPair e source destination

theorem refusable_bytesAt (plain : hasNul source = false) (s : Store) :
    Refusable (s.bytesAt source) := by
  refine (refusable_stat plain s true).bind fun found => ?_
  rcases found with ⟨place, entry⟩
  cases entry with
  | file bytes mode modified => exact refusable_ok _
  | folder mode => exact refusable_os _
  | link target => exact refusable_os _

theorem refusable_target (plain : hasNul destination = false) (s : Store) :
    Refusable (s.target destination) := by
  refine (refusable_locate plain s true).bind fun spot => ?_
  cases spot with
  | free place => exact refusable_ok _
  | found place entry =>
      cases entry with
      | file bytes mode modified => exact refusable_ok _
      | folder mode => exact refusable_os _
      | link target => exact refusable_os _

theorem refusable_copyFile (plain : hasNul source = false) (plain' : hasNul destination = false)
    (s : Store) : Refusable (copyFile source destination s).1 := by
  simp only [copyFile, plain, plain', Bool.or_false, Bool.false_eq_true, if_false]
  split
  · exact refusable_os _
  · exact refusable_ofExcept ((refusable_bytesAt plain s).bind fun _ =>
      (refusable_target plain' s).bind fun _ => refusable_ok _)

theorem eq_nested_of_copyMembers {change : String → String → Change} {names : List String} :
    ∀ {s : Store} {f : Fault}, (copyMembers change source destination names s).1 = .error f →
      f = .nested := by
  induction names with
  | nil =>
      intro s f stopped
      cases stopped
  | cons name rest ih =>
      intro s f stopped
      rw [copyMembers] at stopped
      dsimp only at stopped
      split at stopped
      · cases stopped
        rfl
      · next r s' _ _ =>
          rcases later : copyMembers change source destination rest s' with ⟨f' | failures, s''⟩
          · rw [later] at stopped
            cases stopped
            exact ih (by rw [later])
          · rw [later] at stopped
            cases stopped

theorem limited_copyTree (plain : hasNul source = false) (plain' : hasNul destination = false)
    (s : Store) : Limited (copyTree source destination s).1 := by
  have made := limited_ensureFolders s.nesting s fun _ member => plain_of_mem_pathsAbove plain' member
  simp only [copyTree, plain, plain', Bool.or_false, Bool.false_eq_true, if_false]
  unfold copyLevels
  split
  · next f stopped => exact (refusable_error (refusable_namesAt plain s f stopped)).limited
  · split
    · next stopped => rwa [stopped] at made
    · split
      · next stopped =>
          rw [eq_nested_of_copyMembers (congrArg Prod.fst stopped)]
          exact limited_nested
      · dsimp only
        split
        all_goals
          split
          · exact (refusable_ok ()).limited
          · exact (refusable_os _).limited

/-- Only a tree that is too high, or has itself in it, stops its copy at what is no refusal. -/
theorem stray_copyTree (plain : hasNul source = false) (plain' : hasNul destination = false) :
    Stray (copyTree source destination s).1 ↔ (copyTree source destination s).1 = .error .nested := by
  constructor
  · rintro ⟨f, stopped, stray⟩
    rcases limited_copyTree plain plain' s f stopped with refusal | rfl
    · rw [isReadable_of_isRefusal refusal] at stray
      cases stray
    · exact stopped
  · intro stopped
    rw [stopped]
    exact stray_error.mpr rfl

theorem move_of_hasNul (nul : hasNul source = true ∨ hasNul destination = true) (s : Store) :
    move source destination s = (.error .nulInPath, s) := by
  rw [hasNul, hasNul] at nul
  apply ofExcept_error
  rw [if_pos]
  simpa using nul

theorem copyFile_of_hasNul (nul : hasNul source = true ∨ hasNul destination = true) (s : Store) :
    copyFile source destination s = (.error .nulInPath, s) := by
  rw [copyFile, if_pos]
  simpa using nul

theorem copyTree_of_hasNul (nul : hasNul source = true ∨ hasNul destination = true) (s : Store) :
    copyTree source destination s = (.error .nulInPath, s) := by
  rw [copyTree, if_pos]
  simpa using nul

end Transfers

/-! Texts. -/

section Texts
variable {path : String} {text : Text.CodePoints}

theorem readText_isReadable (plain : hasNul path = false) {f : Fault}
    (stopped : s.readText path .utf8 = .error f) : f.isReadable = true := by
  simp only [readText, Encoding.utf8, Encoding.checkType, Encoding.read, bind, Except.bind]
    at stopped
  cases bytes : s.bytesAt path with
  | error g =>
      rw [bytes] at stopped
      cases stopped
      exact isReadable_of_isRefusal (refusable_bytesAt plain s f bytes)
  | ok bytes' =>
      rw [bytes] at stopped
      simp only [Codec.decode, Codec.lift] at stopped
      cases decoded : Codec.decodeUtf8 bytes' with
      | ok _ =>
          rw [decoded] at stopped
          cases stopped
      | error g =>
          rw [decoded] at stopped
          cases stopped
          rfl

theorem stray_encodeText (atStart : Bool) :
    Stray (encodeText .utf8 atStart text) ↔ ∃ n ∈ text, Text.isSurrogate n = true := by
  simp only [encodeText, Encoding.utf8, Codec.encode, Codec.encodeBody, Codec.encodeUtf8, Codec.withoutSurrogates]
  cases run : Codec.firstRun? Text.isSurrogate 0 text with
  | none =>
      have plain := Codec.firstRun?_eq_none_iff.mp run
      refine ⟨fun stray => absurd stray (not_stray_ok _), ?_⟩
      rintro ⟨n, member, surrogate⟩
      rw [plain n member] at surrogate
      cases surrogate
  | some found =>
      refine ⟨fun _ => ?_, fun _ => stray_error.mpr rfl⟩
      cases whole : text.any Text.isSurrogate with
      | true => exact List.any_eq_true.mp whole
      | false =>
          have plain : ∀ n ∈ text, Text.isSurrogate n = false := by simpa using whole
          rw [Codec.firstRun?_eq_none_iff.mpr plain] at run
          cases run

theorem plain_ofString (text : String) :
    ¬ ∃ n ∈ Text.CodePoints.ofString text, Text.isSurrogate n = true := by
  rintro ⟨n, member, surrogate⟩
  rw [Text.CodePoints.calm_ofString text n member] at surrogate
  cases surrogate

/-- A text of names has a lone surrogate where one of its characters stands for a byte that is no
text. -/
theorem isSurrogate_pointOf {c : Char} : Text.isSurrogate (s.pointOf c) = true ↔ c ∈ s.undecoded := by
  rw [pointOf]
  cases found : s.undecoded.idxOf? c with
  | none =>
      have calm : Text.isSurrogate c.toNat = false := by
        have single := Text.CodePoints.calm_ofString (String.singleton c)
        simpa [Text.CodePoints.ofString] using single
      simp [calm, List.idxOf?_eq_none_iff.mp found]
  | some i =>
      have inside : c ∈ s.undecoded := Decidable.byContradiction fun outside => by
        rw [List.idxOf?_eq_none_iff.mpr outside] at found
        cases found
      have low := Nat.mod_lt i (by decide : 0 < 128)
      simp only [inside, iff_true, Text.isSurrogate, Bool.and_eq_true, decide_eq_true_iff]
      omega

theorem surrogate_pointsOf {line : String} :
    (∃ n ∈ s.pointsOf line, Text.isSurrogate n = true) ↔ ∃ c ∈ line.toList, c ∈ s.undecoded := by
  rw [pointsOf]
  constructor
  · rintro ⟨n, member, surrogate⟩
    obtain ⟨c, there, rfl⟩ := List.mem_map.mp member
    exact ⟨c, there, isSurrogate_pointOf.mp surrogate⟩
  · rintro ⟨c, member, inside⟩
    exact ⟨_, List.mem_map_of_mem member, isSurrogate_pointOf.mpr inside⟩

theorem pointsOf_of_decoded {line : String} (decoded : ∀ c ∈ line.toList, c ∉ s.undecoded) :
    s.pointsOf line = Text.CodePoints.ofString line := by
  rw [pointsOf, Text.CodePoints.ofString]
  refine List.map_congr_left fun c member => ?_
  rw [pointOf, List.idxOf?_eq_none_iff.mpr (decoded c member)]

theorem stray_written (atStart : Place × ByteArray × Nat → Bool) :
    Stray (s.target path >>= fun t => (encodeText .utf8 (atStart t) text).map fun _ => ()) ↔
      hasNul path = true ∨
        (s.target path).isOk = true ∧ ∃ n ∈ text, Text.isSurrogate n = true := by
  cases nul : hasNul path with
  | true =>
      have stopped : s.target path = .error .nulInPath := by
        rw [target, locate_of_hasNul nul]
        rfl
      rw [stopped]
      exact ⟨fun _ => .inl rfl, fun _ => stray_error.mpr rfl⟩
  | false =>
      have refusable := refusable_target nul s
      cases opened : s.target path with
      | error f =>
          have stopped := isReadable_of_isRefusal (refusable f opened)
          simp [Except.isOk, Except.toBool, bind, Except.bind, stray_error, stopped]
      | ok t =>
          have encoded : Stray (encodeText .utf8 (atStart t) text) ↔ _ := stray_encodeText (atStart t)
          simp only [bind, Except.bind, Bool.false_eq_true, false_or, Except.isOk, Except.toBool,
            true_and]
          rw [← encoded]
          cases encodeText .utf8 (atStart t) text with
          | error f => simp only [Except.map, stray_error]
          | ok bytes => exact iff_of_false (not_stray_ok _) (not_stray_ok _)

theorem stray_writeText :
    Stray (writeText path text .utf8 s).1 ↔
      hasNul path = true ∨
        (s.target path).isOk = true ∧ ∃ n ∈ text, Text.isSurrogate n = true := by
  rw [← stray_written fun _ => true]
  have same : (writeText path text .utf8 s).1 =
      s.target path >>= fun _ => (encodeText .utf8 true text).map fun _ => () := by
    simp only [writeText, Encoding.utf8, Encoding.checkType, bind, Except.bind]
    cases s.target path with
    | error f => rfl
    | ok t => cases encodeText (.codec .utf8) true text <;> rfl
  rw [same]

theorem stray_appendText :
    Stray (appendText path text .utf8 s).1 ↔
      hasNul path = true ∨
        (s.target path).isOk = true ∧ ∃ n ∈ text, Text.isSurrogate n = true := by
  rw [← stray_written fun t => t.2.1.isEmpty]
  have same : (appendText path text .utf8 s).1 =
      s.target path >>= fun t => (encodeText .utf8 t.2.1.isEmpty text).map fun _ => () := by
    simp only [appendText, Encoding.utf8, Encoding.checkType, bind, Except.bind]
    cases s.target path with
    | error f => rfl
    | ok t =>
        obtain ⟨place, old, mode⟩ := t
        simp only
        cases encodeText (.codec .utf8) old.isEmpty text <;> rfl
  rw [same]

end Texts

end FileQuery.Store
