import FileQuery.Proofs.Editor.Command

/-! What one typed line does. It makes of the buffer what its command says, and typing goes on; a save
writes the buffer, and a load may stop at a file that cannot be read. -/
set_option autoImplicit false
namespace FileQuery.Editor

def joined (buffer : List String) : Text.CodePoints :=
  .ofString (String.intercalate "\n" buffer)

/-- The path that a file is called by in the folder of another. -/
def beside (path file : String) : String :=
  String.ofList (Path.join (Path.parent path.toList) file.toList)

def Finds (s : Store) (path file : String) : Prop :=
  (Text.words file.toList).length = 1 ∧ s.isFile (beside path file) = true

section
variable (s : Store) (encoding : Store.Encoding) (path : String)

/-- What a line that does not close the editor makes of the buffer. -/
inductive Edits (buffer : List String) (line : String) : List String → Prop
  | text : line.toList.head? ≠ some ':' → Edits buffer line (buffer ++ [line])
  | undo {argument : String} : Calls "undo" argument line → Edits buffer line buffer.dropLast
  | load {file text : String} : Calls "load" file line → Finds s path file →
      s.readText (beside path file) encoding = .ok text → Edits buffer line (Text.lines text)
  | other : line.toList.head? = some ':' → (∀ argument, ¬ Calls "undo" argument line) →
      (∀ file, Calls "load" file line → ¬ Finds s path file) → Edits buffer line buffer

end

section Step
variable {encoding : Store.Encoding} {line : String} {buffer : List String} {t : Step}

/-- Typing goes on with some buffer, and nothing is saved. -/
structure Continues (t t' : Step) : Prop extends GoesOn t t' where
  saved : t'.editor.saved = t.editor.saved

theorem Continues.trans {t t' t'' : Step} (first : Continues t t') (second : Continues t' t'') :
    Continues t t'' where
  mode := second.mode
  path := second.path.trans first.path
  store := second.store.trans first.store
  saved := second.saved.trans first.saved

section Load
variable {file text : String} {f : Store.Fault}

theorem obey_load_of_not_finds (encoding : Store.Encoding)
    (none : ¬ Finds t.store t.editor.path file) :
    ∃ t', obey encoding (.load file) t = (.ok (), t') ∧ t'.editor.buffer = t.editor.buffer ∧
      Continues t t' := by
  by_cases word : (Text.words file.toList).length = 1
  · have missing : t.store.isFile (String.ofList
        (Path.join (Path.parent t.editor.path.toList) file.toList)) = false :=
      Bool.eq_false_iff.mpr fun there => none ⟨word, there⟩
    simp only [obey, loadFile, word, missing]
    exact ⟨_, rfl, rfl, ⟨⟨rfl, rfl, rfl⟩, rfl⟩⟩
  · simp only [obey, loadFile, word, ne_eq, not_false_eq_true, if_true]
    exact ⟨_, rfl, rfl, ⟨⟨rfl, rfl, rfl⟩, rfl⟩⟩

theorem obey_load_of_read (finds : Finds t.store t.editor.path file)
    (read : t.store.readText (beside t.editor.path file) encoding = .ok text) :
    ∃ t', obey encoding (.load file) t = (.ok (), t') ∧ t'.editor.buffer = Text.lines text ∧
      Continues t t' := by
  obtain ⟨word, there⟩ := finds
  rw [beside] at there read
  simp only [obey, loadFile, word, there, read]
  exact ⟨_, rfl, rfl, ⟨⟨rfl, rfl, rfl⟩, rfl⟩⟩

theorem obey_load_of_unread (finds : Finds t.store t.editor.path file)
    (stopped : t.store.readText (beside t.editor.path file) encoding = .error f) :
    obey encoding (.load file) t = (.error f, t) := by
  obtain ⟨word, there⟩ := finds
  rw [beside] at there stopped
  simp only [obey, loadFile, word, there, stopped]
  rfl

end Load

section Save
variable {s : Store} {f : Store.Fault}

theorem obey_save_of_written
    (wrote : Store.writeText t.editor.path (joined t.editor.buffer) encoding t.store = (.ok (), s)) :
    obey encoding .save t = (.ok (),
      { t with store := s, editor := { t.editor with saved := true, mode := .closed } }) := by
  rw [joined] at wrote
  simp only [obey, wrote]

theorem obey_save_of_stopped
    (stopped : Store.writeText t.editor.path (joined t.editor.buffer) encoding t.store =
      (.error f, s)) :
    obey encoding .save t = (.error f, { t with store := s }) := by
  rw [joined] at stopped
  simp only [obey, stopped]

end Save

/-- A line that can be obeyed is obeyed: the buffer becomes what its command says. -/
theorem feed_of_edits (insert : t.editor.mode = .insert) (stays : ¬ Closes line)
    (edits : Edits t.store encoding t.editor.path t.editor.buffer line buffer) :
    ∃ t', feed encoding line t = (.ok (), t') ∧ t'.editor.buffer = buffer ∧ Continues t t' := by
  rw [closes_iff, not_or] at stays
  cases edits with
  | text plain =>
      have typed := command?_eq_none_iff.mpr plain
      exact ⟨_, feed_of_text encoding typed t, rfl, ⟨⟨insert, rfl, rfl⟩, rfl⟩⟩
  | undo called =>
      have typed := command?_eq_undo_iff.mpr ⟨_, called⟩
      exact ⟨_, feed_of_command encoding typed t, rfl, ⟨⟨rfl, rfl, rfl⟩, rfl⟩⟩
  | load called finds read =>
      have typed := command?_eq_load_iff.mpr called
      obtain ⟨t', obeyed, same, goes⟩ := obey_load_of_read (t := t.obeying) finds read
      exact ⟨t', (feed_of_command encoding typed t).trans obeyed, same,
        ⟨⟨goes.mode, goes.path, goes.store⟩, goes.saved⟩⟩
  | other colon noUndo noLoad =>
      cases typed : command? line with
      | none => exact absurd colon (command?_eq_none_iff.mp typed)
      | some c =>
          rw [feed_of_command encoding typed t]
          cases c with
          | save => exact absurd typed stays.1
          | exit => exact absurd typed stays.2
          | load file =>
              obtain ⟨t', obeyed, same, goes⟩ := obey_load_of_not_finds (t := t.obeying)
                encoding (noLoad file (command?_eq_load_iff.mp typed))
              exact ⟨t', obeyed, same, ⟨⟨goes.mode, goes.path, goes.store⟩, goes.saved⟩⟩
          | print => exact ⟨_, rfl, rfl, ⟨⟨rfl, rfl, rfl⟩, rfl⟩⟩
          | undo =>
              obtain ⟨argument, called⟩ := command?_eq_undo_iff.mp typed
              exact absurd called (noUndo argument)
          | unknown text => exact ⟨_, rfl, rfl, ⟨⟨rfl, rfl, rfl⟩, rfl⟩⟩

theorem exists_edits (done : (feed encoding line t).1 = .ok ()) :
    ∃ buffer, Edits t.store encoding t.editor.path t.editor.buffer line buffer := by
  by_cases colon : line.toList.head? = some ':'
  · by_cases undone : ∃ argument, Calls "undo" argument line
    · obtain ⟨argument, called⟩ := undone
      exact ⟨_, .undo called⟩
    · by_cases loads : ∃ file, Calls "load" file line ∧ Finds t.store t.editor.path file
      · obtain ⟨file, called, finds⟩ := loads
        cases read : t.store.readText (beside t.editor.path file) encoding with
        | ok text => exact ⟨_, .load called finds read⟩
        | error f =>
            rw [feed_of_command encoding (command?_eq_load_iff.mpr called),
              obey_load_of_unread (t := t.obeying) finds read] at done
            cases done
      · exact ⟨_, .other colon (fun _ called => undone ⟨_, called⟩)
          fun file called finds => loads ⟨file, called, finds⟩⟩
  · exact ⟨_, .text colon⟩

end Step

end FileQuery.Editor
