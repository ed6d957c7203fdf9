import FileQuery.Proofs.Editor.Buffer

/-! What a typed line may cost. A command that comes to nothing leaves the buffer as it was and the
editor ready for the next line, but for a load that stops at a file which cannot be read. -/
set_option autoImplicit false
namespace FileQuery.Editor

/-- What an editor can be once it has opened a file and while the lines that it is fed do not stop.
The store may change between them. -/
inductive Reachable (encoding : Store.Encoding) : Editor → Prop
  | opened {e e' : Editor} {s : Store} {path : String} :
      e.openFile s encoding path = (.ok (), e') → Reachable encoding e'
  | fed {t t' : Step} {line : String} : Reachable encoding t.editor →
      feed encoding line t = (.ok (), t') → Reachable encoding t'.editor

section
variable (s : Store) (encoding : Store.Encoding) (path line : String)

/-- A load without effect: it does not ask for one file, or for none that can be read. -/
def Idle : Prop :=
  ∃ file, Calls "load" file line ∧ ¬ ((Text.words file.toList).length = 1 ∧
    (s.readText (beside path file) encoding).isOk = true)

/-- A load of a file that is there but cannot be read. -/
def Stops : Prop :=
  ∃ file, Calls "load" file line ∧ Finds s path file ∧
    (s.readText (beside path file) encoding).isOk = false

end

/-- A line is taken in, after which the editor types on or has closed, and it costs nothing if it is a
load without effect. -/
def TakenIn (encoding : Store.Encoding) (line : String) (t : Step) : Prop :=
  ∃ t', feed encoding line t = (.ok (), t') ∧
    (t'.editor.mode = .insert ∨ t'.editor.mode = .closed) ∧
    (Idle t.store encoding t.editor.path line →
      t'.editor.buffer = t.editor.buffer ∧ t'.editor.mode = .insert)

variable {encoding : Store.Encoding} {line : String} {t t' : Step}

theorem mode_of_obey {c : Command} (done : obey encoding c t = (.ok (), t')) :
    t'.editor.mode = .insert ∨ t'.editor.mode = .closed := by
  cases c with
  | save =>
      rcases wrote : Store.writeText t.editor.path (joined t.editor.buffer) encoding t.store with
        ⟨f | _, s⟩
      · rw [obey_save_of_stopped wrote] at done
        cases done
      · rw [obey_save_of_written wrote] at done
        cases done
        exact .inr rfl
  | exit =>
      cases done
      exact .inr rfl
  | load file =>
      by_cases finds : Finds t.store t.editor.path file
      · cases read : t.store.readText (beside t.editor.path file) encoding with
        | error f =>
            rw [obey_load_of_unread finds read] at done
            cases done
        | ok text =>
            obtain ⟨t'', obeyed, -, goes⟩ := obey_load_of_read finds read
            rw [obeyed] at done
            cases done
            exact .inl goes.mode
      · obtain ⟨t'', obeyed, -, goes⟩ := obey_load_of_not_finds encoding finds
        rw [obeyed] at done
        cases done
        exact .inl goes.mode
  | print | undo | unknown text =>
      cases done
      exact .inl rfl

theorem mode_of_reachable {e : Editor} (reached : Reachable encoding e) :
    e.mode = .insert ∨ e.mode = .closed := by
  induction reached with
  | @opened e e' s path opened =>
      have returned : (e.openFile s encoding path).1 = .ok () := by rw [opened]
      obtain ⟨start, begins⟩ := exists_begins returned
      rw [openFile_of_begins begins] at opened
      cases opened
      exact .inl rfl
  | @fed t t' line _ fed ih =>
      cases typed : command? line with
      | none =>
          rw [feed_of_text encoding typed] at fed
          cases fed
          exact ih
      | some c =>
          rw [feed_of_command encoding typed] at fed
          exact mode_of_obey fed

/-- A load that stops leaves the buffer as it was, but the editor with its command. -/
theorem feed_of_stops (stops : Stops t.store encoding t.editor.path line) :
    ∃ f, feed encoding line t = (.error f, t.obeying) := by
  obtain ⟨file, called, finds, unread⟩ := stops
  rw [feed_of_command encoding (command?_eq_load_iff.mpr called)]
  cases read : t.store.readText (beside t.editor.path file) encoding with
  | ok text =>
      rw [read] at unread
      cases unread
  | error f => exact ⟨f, obey_load_of_unread (t := t.obeying) finds read⟩

theorem not_idle {s : Store} {path : String} (other : ∀ file, command? line ≠ some (.load file)) :
    ¬ Idle s encoding path line := by
  rintro ⟨file, called, -⟩
  exact other file (command?_eq_load_iff.mpr called)

theorem takenIn_text (typed : command? line = none) (mode : t.editor.mode ≠ .command) :
    TakenIn encoding line t := by
  refine ⟨_, feed_of_text encoding typed t, ?_, fun idle => ?_⟩
  · cases same : t.editor.mode with
    | insert => exact .inl rfl
    | command => exact absurd same mode
    | closed => exact .inr rfl
  · exact absurd idle (not_idle (by simp [typed]))

theorem takenIn_load {file : String} (typed : command? line = some (.load file))
    (goes : ¬ Stops t.store encoding t.editor.path line) : TakenIn encoding line t := by
  have called := command?_eq_load_iff.mp typed
  by_cases finds : Finds t.store t.editor.path file
  · cases read : t.store.readText (beside t.editor.path file) encoding with
    | error f => exact absurd ⟨file, called, finds, by rw [read]; rfl⟩ goes
    | ok text =>
        obtain ⟨t', obeyed, -, on⟩ := obey_load_of_read (t := t.obeying) finds read
        refine ⟨t', (feed_of_command encoding typed t).trans obeyed, .inl on.mode, ?_⟩
        rintro ⟨file', called', effect⟩
        have same := (command?_eq_load_iff.mpr called').symm.trans typed
        cases same
        exact absurd ⟨finds.1, by rw [read]; rfl⟩ effect
  · obtain ⟨t', obeyed, same, on⟩ :=
      obey_load_of_not_finds (t := t.obeying) encoding finds
    exact ⟨t', (feed_of_command encoding typed t).trans obeyed, .inl on.mode,
      fun _ => ⟨same, on.mode⟩⟩

theorem takenIn_iff (noSave : ∀ argument, ¬ Calls "save" argument line) :
    TakenIn encoding line t ↔ ¬ Stops t.store encoding t.editor.path line ∧
      (t.editor.mode = .command → line.toList.head? = some ':') := by
  constructor
  · rintro ⟨t', fed, mode, -⟩
    refine ⟨fun stops => ?_, fun command => ?_⟩
    · obtain ⟨f, stopped⟩ := feed_of_stops stops
      rw [fed] at stopped
      cases stopped
    · by_contra plain
      rw [feed_of_text encoding (command?_eq_none_iff.mpr plain)] at fed
      cases fed
      simp [command] at mode
  · rintro ⟨goes, colon⟩
    cases typed : command? line with
    | none => exact takenIn_text typed fun mode => command?_eq_none_iff.mp typed (colon mode)
    | some c =>
        cases c with
        | save =>
            obtain ⟨argument, called⟩ := command?_eq_save_iff.mp typed
            exact absurd called (noSave argument)
        | load file => exact takenIn_load typed goes
        | exit =>
            exact ⟨_, feed_of_command encoding typed t, .inr rfl,
              fun idle => absurd idle (not_idle (by simp [typed]))⟩
        | print | undo | unknown text =>
            exact ⟨_, feed_of_command encoding typed t, .inl rfl,
              fun idle => absurd idle (not_idle (by simp [typed]))⟩

/-- A line other than a save is taken in exactly if it does not load a file that is there and cannot
be read. A load that does stops the editor before it is back to typing; what is typed after that does
not bring it back, but any other command does. -/
theorem line_taken_in_iff (noSave : ∀ argument, ¬ Calls "save" argument line) :
    (∀ t : Step, Reachable encoding t.editor →
      (TakenIn encoding line t ↔ ¬ Stops t.store encoding t.editor.path line)) ∧
    (∀ t : Step, Stops t.store encoding t.editor.path line →
      ∃ f, feed encoding line t = (.error f, t.obeying)) ∧
    ∀ t : Step, t.editor.mode = .command → (TakenIn encoding line t ↔
      line.toList.head? = some ':' ∧ ¬ Stops t.store encoding t.editor.path line) := by
  refine ⟨fun t reached => ?_, fun t => feed_of_stops, fun t command => ?_⟩
  · rw [takenIn_iff noSave, and_iff_left]
    intro command
    rcases mode_of_reachable reached with mode | mode <;> rw [command] at mode <;> cases mode
  · rw [takenIn_iff noSave, and_comm]
    simp only [command, forall_const]

/-- An editor that has opened a new file in the folder of another and been fed a line. -/
def oneTyped : Editor := { buffer := ["kept"], mode := .insert, path := "/work/b.txt" }

theorem reachable_oneTyped : Reachable .utf8 oneTyped := by
  let fresh : Editor := { mode := .insert, path := "/work/b.txt" }
  have missing : Begins letterStore .utf8 "/work/b.txt" [] := .missing (by decide)
  have opened : Reachable .utf8 fresh := .opened (openFile_of_begins (e := {}) missing)
  have fed : feed .utf8 "kept" { editor := fresh, store := letterStore } =
      (.ok (), { editor := oneTyped, store := letterStore }) := rfl
  exact .fed opened fed

theorem not_save_of_load {line file : String} (typed : command? line = some (.load file))
    (argument : String) : ¬ Calls "save" argument line := by
  intro called
  rw [command?_eq_save_iff.mpr ⟨argument, called⟩] at typed
  cases typed

theorem missing_load_taken_in :
    TakenIn .utf8 ":load ghost.txt" { editor := oneTyped, store := letterStore } := by
  have typed : command? ":load ghost.txt" = some (.load "ghost.txt") := by decide +kernel
  refine ((line_taken_in_iff (not_save_of_load typed)).1 _ reachable_oneTyped).mpr ?_
  rintro ⟨file, called, finds, -⟩
  cases (command?_eq_load_iff.mpr called).symm.trans typed
  exact absurd finds.2 (by decide)

/-- The same folder with a file that is no text. -/
def byteStore : Store := folderOf ⟨#[255]⟩

/-- A load of a file that is no text is no save, but stops the editor. -/
theorem bytes_stop_load :
    Reachable .utf8 oneTyped ∧ (∀ argument, ¬ Calls "save" argument ":load a.txt") ∧
      Idle byteStore .utf8 oneTyped.path ":load a.txt" ∧
      (feed .utf8 ":load a.txt" { editor := oneTyped, store := byteStore }).1.isOk = false ∧
      (feed .utf8 ":load a.txt" { editor := oneTyped, store := byteStore }).2.editor.mode =
        .command ∧
      ¬ TakenIn .utf8 ":load a.txt" { editor := oneTyped, store := byteStore } := by
  have typed : command? ":load a.txt" = some (.load "a.txt") := by decide +kernel
  have called := command?_eq_load_iff.mp typed
  have finds : Finds byteStore oneTyped.path "a.txt" := ⟨by decide +kernel, by decide⟩
  have unread : (byteStore.readText (beside oneTyped.path "a.txt") .utf8).isOk = false := by
    decide +kernel
  have stops : Stops byteStore .utf8 oneTyped.path ":load a.txt" := ⟨_, called, finds, unread⟩
  obtain ⟨f, stopped⟩ := feed_of_stops (t := { editor := oneTyped, store := byteStore }) stops
  refine ⟨reachable_oneTyped, not_save_of_load typed, ⟨_, called, fun effect => ?_⟩, ?_, ?_, ?_⟩
  · rw [unread] at effect
    cases effect.2
  · rw [stopped]
    rfl
  · rw [stopped]
    rfl
  · rintro ⟨t', fed, -⟩
    rw [stopped] at fed
    cases fed

end FileQuery.Editor
