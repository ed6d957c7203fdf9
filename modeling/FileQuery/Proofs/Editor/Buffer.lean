import FileQuery.Proofs.Editor.Turn
import FileQuery.Proofs.Store.TextBack

/-! The editor as a machine on a buffer. Each typed line makes of the buffer what its command says,
until a line saves or leaves; nothing is written but by a save. -/
set_option autoImplicit false
namespace FileQuery

/-- What a store has become by a text that was put into one file, old or new: nothing else differs. -/
def Store.TookText (s : Store) (path : String) (encoding : Store.Encoding) (text : String)
    (t : Store) : Prop :=
  ∃ place old mode bytes, s.target path = .ok (place, old, mode) ∧
    Store.encodeText encoding true (Text.CodePoints.ofString text) = .ok bytes ∧
    t = s.putBytes place mode bytes ∧ t.bytesAt path = .ok bytes ∧ ∀ q ≠ place, t.get? q = s.get? q

theorem Store.tookText_of_written {s t : Store} {path text : String} {encoding : Store.Encoding}
    (wrote : writeText path (Text.CodePoints.ofString text) encoding s = (.ok (), t)) :
    s.TookText path encoding text t := by
  obtain ⟨place, old, mode, bytes, file, encoded, rfl, held⟩ :=
    Writing.bytesAt_of_done (x := ⟨path, .ofString text, false⟩) wrote
  rw [Writing.kept, if_neg Bool.false_ne_true, ByteArray.empty_append] at held ⊢
  refine ⟨place, old, mode, bytes, file, encoded, rfl, held, fun q apart => ?_⟩
  rw [putBytes, get?_put, if_neg apart]

namespace Editor

/-- The lines before the first that closes the editor. -/
def typedLines (input : List String) : List String := input.takeWhile fun line => ¬ Closes line

/-- The lines behind the first that closes the editor. -/
def unreadLines (input : List String) : List String :=
  (input.dropWhile fun line => ¬ Closes line).tail

/-- Some line saves, and none before it leaves. -/
def Saves (input : List String) : Prop :=
  ∃ before line after argument, input = before ++ line :: after ∧ Calls "save" argument line ∧
    ∀ l ∈ before, ∀ argument, ¬ Calls "exit" argument l

section
variable (s : Store) (encoding : Store.Encoding) (path : String)

/-- The lines that editing begins with: those of the file, none if there is no file. -/
inductive Begins : List String → Prop
  | missing : s.isFile path = false → Begins []
  | read {text : String} : s.isFile path = true → s.readText path encoding = .ok text →
      Begins (Text.lines text)

/-- What typed lines that do not close the editor make of the buffer one after the other. -/
inductive EditsAll : List String → List String → List String → Prop
  | nil {buffer : List String} : EditsAll buffer [] buffer
  | cons {buffer buffer' buffer'' : List String} {line : String} {rest : List String} :
      Edits s encoding path buffer line buffer' → EditsAll buffer' rest buffer'' →
        EditsAll buffer (line :: rest) buffer''

/-- Typed lines can be obeyed to the end, and this is the buffer by then: whatever is read can be
read, and a save can write the buffer. -/
structure Obeyed (input buffer : List String) : Prop where
  edited : ∃ start, Begins s encoding path start ∧
    EditsAll s encoding path start (typedLines input) buffer
  written : Saves input → ∃ t, Store.writeText path (joined buffer) encoding s = (.ok (), t)

end

section Run
variable {encoding : Store.Encoding} {lines after : List String} {buffer : List String}

theorem typeLines_of_edits {line : String} {t : Step} (insert : t.editor.mode = .insert)
    (stays : ¬ Closes line)
    (edits : Edits t.store encoding t.editor.path t.editor.buffer line buffer) :
    ∃ t', t'.editor.buffer = buffer ∧ Continues t t' ∧
      ∀ after, typeLines encoding (line :: after) t = typeLines encoding after t' := by
  let prompted := t.print [.prompt t.editor.prompt]
  obtain ⟨t', fed, same, goes⟩ := feed_of_edits (t := prompted) insert stays edits
  refine ⟨t', same, ⟨⟨goes.mode, goes.path, goes.store⟩, goes.saved⟩, fun after => ?_⟩
  have open' : t'.editor.mode ≠ .closed := by rw [goes.mode]; exact nofun
  rw [typeLines, fed]
  exact if_neg open'

/-- Lines that can be obeyed are obeyed one after the other, and those behind them are typed next. -/
theorem typeLines_of_editsAll : ∀ {t : Step}, t.editor.mode = .insert →
    (∀ line ∈ lines, ¬ Closes line) →
      EditsAll t.store encoding t.editor.path t.editor.buffer lines buffer →
        ∃ t', t'.editor.buffer = buffer ∧ Continues t t' ∧
          ∀ after, typeLines encoding (lines ++ after) t = typeLines encoding after t' := by
  induction lines with
  | nil =>
      intro t insert _ edits
      cases edits
      exact ⟨t, rfl, ⟨⟨insert, rfl, rfl⟩, rfl⟩, fun _ => rfl⟩
  | cons line rest ih =>
      intro t insert stay edits
      obtain _ | ⟨first, others⟩ := edits
      obtain ⟨t', rfl, goes, typed⟩ :=
        typeLines_of_edits insert (stay line List.mem_cons_self) first
      rw [← goes.store, ← goes.path] at others
      obtain ⟨t'', last, on, run⟩ :=
        ih goes.mode (fun l member => stay l (List.mem_cons_of_mem _ member)) others
      exact ⟨t'', last, goes.trans on, fun after => (typed (rest ++ after)).trans (run after)⟩

theorem exists_editsAll : ∀ {t : Step}, t.editor.mode = .insert →
    (∀ line ∈ lines, ¬ Closes line) → (typeLines encoding (lines ++ after) t).1 = .ok () →
      ∃ buffer, EditsAll t.store encoding t.editor.path t.editor.buffer lines buffer := by
  induction lines with
  | nil => exact fun _ _ _ => ⟨_, .nil⟩
  | cons line rest ih =>
      intro t insert stay done
      have returned : (feed encoding line (t.print [.prompt t.editor.prompt])).1 = .ok () := by
        rw [List.cons_append, typeLines] at done
        split at done
        · cases done
        · next fed => rw [fed]
      obtain ⟨buffer, first⟩ := exists_edits returned
      obtain ⟨t', rfl, goes, typed⟩ :=
        typeLines_of_edits insert (stay line List.mem_cons_self) first
      rw [List.cons_append, typed] at done
      obtain ⟨buffer', others⟩ :=
        ih goes.mode (fun l member => stay l (List.mem_cons_of_mem _ member)) done
      rw [goes.store, goes.path] at others
      exact ⟨buffer', .cons first others⟩

theorem typeLines_exit {line : String} (called : command? line = some .exit)
    (encoding : Store.Encoding) (after : List String) (t : Step) :
    ∃ t', typeLines encoding (line :: after) t = (.ok (), t', after) ∧
      t'.editor.saved = t.editor.saved ∧ t'.store = t.store := by
  rw [typeLines, feed_of_command encoding called]
  exact ⟨_, rfl, rfl, rfl⟩

theorem typeLines_save {line : String} {t : Step} {s : Store} (called : command? line = some .save)
    (wrote : Store.writeText t.editor.path (joined t.editor.buffer) encoding t.store = (.ok (), s))
    (after : List String) :
    ∃ t', typeLines encoding (line :: after) t = (.ok (), t', after) ∧
      t'.editor.saved = true ∧ t'.store = s := by
  let prompted := t.print [.prompt t.editor.prompt]
  rw [typeLines, feed_of_command encoding called, obey_save_of_written (t := prompted.obeying) wrote]
  exact ⟨_, rfl, rfl, rfl⟩

theorem written_of_typeLines {line : String} {t : Step} (called : command? line = some .save)
    (done : (typeLines encoding (line :: after) t).1 = .ok ()) :
    ∃ s, Store.writeText t.editor.path (joined t.editor.buffer) encoding t.store = (.ok (), s) := by
  let prompted := t.print [.prompt t.editor.prompt]
  rcases wrote : Store.writeText t.editor.path (joined t.editor.buffer) encoding t.store with
    ⟨f | _, s⟩
  · rw [typeLines, feed_of_command encoding called,
      obey_save_of_stopped (t := prompted.obeying) wrote] at done
    cases done
  · exact ⟨s, rfl⟩

end Run

section Input
variable {lines input : List String} {line : String}

theorem saves_cons : Saves (line :: input) ↔
    (∃ argument, Calls "save" argument line) ∨
      (∀ argument, ¬ Calls "exit" argument line) ∧ Saves input := by
  constructor
  · rintro ⟨before, last, after, argument, same, called, noExit⟩
    cases before with
    | nil =>
        obtain ⟨rfl, rfl⟩ := List.cons.inj same
        exact .inl ⟨argument, called⟩
    | cons first before =>
        obtain ⟨rfl, rfl⟩ := List.cons.inj same
        exact .inr ⟨noExit _ List.mem_cons_self, before, last, after, argument, rfl, called,
          fun l member => noExit l (List.mem_cons_of_mem _ member)⟩
  · rintro (⟨argument, called⟩ | ⟨noExit, before, last, after, argument, rfl, called, others⟩)
    · exact ⟨[], line, input, argument, rfl, called, nofun⟩
    · refine ⟨line :: before, last, after, argument, rfl, called, fun l member => ?_⟩
      rcases List.mem_cons.mp member with rfl | inside
      · exact noExit
      · exact others l inside

theorem saves_append (stay : ∀ line ∈ lines, ¬ Closes line) :
    Saves (lines ++ input) ↔ Saves input := by
  induction lines with
  | nil => rfl
  | cons line rest ih =>
      have open' := stay line List.mem_cons_self
      rw [List.cons_append, saves_cons, ih fun l member => stay l (List.mem_cons_of_mem _ member)]
      constructor
      · rintro (⟨argument, called⟩ | ⟨-, saves⟩)
        · exact absurd ⟨argument, .inl called⟩ open'
        · exact saves
      · exact fun saves => .inr ⟨fun argument called => open' ⟨argument, .inr called⟩, saves⟩

theorem not_saves_of_exit (called : command? line = some .exit) : ¬ Saves (line :: input) := by
  rw [saves_cons]
  rintro (saved | ⟨noExit, -⟩)
  · rw [command?_eq_save_iff.mpr saved] at called
    cases called
  · obtain ⟨argument, left⟩ := command?_eq_exit_iff.mp called
    exact noExit argument left

theorem not_saves_nil : ¬ Saves [] := by
  rintro ⟨before, _, _, _, same, _⟩
  cases before <;> cases same

/-- Every input is the lines that are typed, with nothing behind them or a line that saves or leaves
and those that stay unread. -/
theorem input_cases (input : List String) :
    (∀ line ∈ typedLines input, ¬ Closes line) ∧
      ((input = typedLines input ++ [] ∧ unreadLines input = [] ∧ ¬ Saves input) ∨
        ∃ line, input = typedLines input ++ line :: unreadLines input ∧
          ((command? line = some .save ∧ Saves input) ∨
            (command? line = some .exit ∧ ¬ Saves input))) := by
  have whole : input = typedLines input ++ input.dropWhile fun line => ¬ Closes line :=
    List.takeWhile_append_dropWhile.symm
  have stay : ∀ line ∈ typedLines input, ¬ Closes line := fun line member => by
    simpa using List.mem_takeWhile_imp member
  have saves : Saves input ↔ Saves (input.dropWhile fun line => ¬ Closes line) := by
    conv_lhs => rw [whole]
    exact saves_append stay
  refine ⟨stay, ?_⟩
  cases rest : input.dropWhile fun line => ¬ Closes line with
  | nil =>
      rw [rest] at whole saves
      exact .inl ⟨whole, by rw [unreadLines, rest]; rfl, mt saves.mp not_saves_nil⟩
  | cons line after =>
      have first := List.head?_dropWhile_not (fun line => decide (¬ Closes line)) input
      rw [rest] at first whole saves
      have closes : Closes line := by simpa using first
      have unread : unreadLines input = after := by rw [unreadLines, rest]; rfl
      refine .inr ⟨line, by rw [unread]; exact whole, ?_⟩
      rcases closes_iff.mp closes with called | called
      · exact .inl ⟨called, saves.mpr (saves_cons.mpr (.inl (command?_eq_save_iff.mp called)))⟩
      · exact .inr ⟨called, mt saves.mp (not_saves_of_exit called)⟩

end Input

section Whole
variable {encoding : Store.Encoding} {input buffer : List String} {t : Step}

/-- Where typed lines end: a save has put the buffer into the store, and without one the store is as
it was. -/
structure Ends (s : Store) (encoding : Store.Encoding) (path : String) (input buffer : List String)
    (t : Step) : Prop where
  saved : t.editor.saved = true ↔ Saves input
  written : t.editor.saved = true →
    Store.writeText path (joined buffer) encoding s = (.ok (), t.store)
  kept : t.editor.saved = false → t.store = s

section Ends
variable {s : Store} {path : String}

theorem ends_saved (does : Saves input) (saved : t.editor.saved = true)
    (wrote : Store.writeText path (joined buffer) encoding s = (.ok (), t.store)) :
    Ends s encoding path input buffer t where
  saved := iff_of_true saved does
  written := fun _ => wrote
  kept := fun unsaved => absurd saved (Bool.eq_false_iff.mp unsaved)

theorem ends_unsaved (none : ¬ Saves input) (unsaved : t.editor.saved = false)
    (store : t.store = s) : Ends s encoding path input buffer t where
  saved := iff_of_false (Bool.eq_false_iff.mp unsaved) none
  written := fun saved => absurd saved (Bool.eq_false_iff.mp unsaved)
  kept := fun _ => store

end Ends

theorem typeLines_follows (insert : t.editor.mode = .insert) (unsaved : t.editor.saved = false)
    (edits : EditsAll t.store encoding t.editor.path t.editor.buffer (typedLines input) buffer)
    (written : Saves input →
      ∃ s, Store.writeText t.editor.path (joined buffer) encoding t.store = (.ok (), s)) :
    ∃ t', typeLines encoding input t = (.ok (), t', unreadLines input) ∧
      Ends t.store encoding t.editor.path input buffer t' := by
  obtain ⟨stay, ending⟩ := input_cases input
  obtain ⟨t', rfl, goes, typed⟩ := typeLines_of_editsAll insert stay edits
  have unsaved' := goes.saved.trans unsaved
  obtain ⟨whole, unread, none⟩ | ⟨line, whole, ⟨called, does⟩ | ⟨called, none⟩⟩ := ending
  · rw [whole, typed, ← whole, unread, typeLines]
    exact ⟨_, rfl, ends_unsaved none unsaved' goes.store⟩
  · obtain ⟨s, wrote⟩ := written does
    rw [← goes.path, ← goes.store] at wrote
    obtain ⟨t'', ran, saved, rfl⟩ := typeLines_save called wrote (unreadLines input)
    rw [goes.path, goes.store] at wrote
    have run := (typed (line :: unreadLines input)).trans ran
    rw [← whole] at run
    exact ⟨t'', run, ends_saved does saved wrote⟩
  · obtain ⟨t'', ran, same, store⟩ := typeLines_exit called encoding (unreadLines input) t'
    have run := (typed (line :: unreadLines input)).trans ran
    rw [← whole] at run
    exact ⟨t'', run, ends_unsaved none (same.trans unsaved') (store.trans goes.store)⟩

/-- Lines that do not stop at a fault make a buffer, and a save among them writes it. -/
theorem exists_buffer (insert : t.editor.mode = .insert)
    (done : (typeLines encoding input t).1 = .ok ()) :
    ∃ buffer, EditsAll t.store encoding t.editor.path t.editor.buffer (typedLines input) buffer ∧
      (Saves input →
        ∃ s, Store.writeText t.editor.path (joined buffer) encoding t.store = (.ok (), s)) := by
  obtain ⟨stay, ending⟩ := input_cases input
  have edited : ∀ after, input = typedLines input ++ after →
      ∃ buffer, EditsAll t.store encoding t.editor.path t.editor.buffer (typedLines input) buffer := by
    intro after whole
    rw [whole] at done
    exact exists_editsAll insert stay done
  obtain ⟨whole, _, none⟩ | ⟨line, whole, ⟨called, _⟩ | ⟨_, none⟩⟩ := ending
  · obtain ⟨buffer, edits⟩ := edited _ whole
    exact ⟨buffer, edits, fun does => absurd does none⟩
  · obtain ⟨buffer, edits⟩ := edited _ whole
    obtain ⟨t', rfl, goes, typed⟩ := typeLines_of_editsAll insert stay edits
    rw [whole, typed] at done
    have wrote := written_of_typeLines called done
    rw [goes.path, goes.store] at wrote
    exact ⟨_, edits, fun _ => wrote⟩
  · obtain ⟨buffer, edits⟩ := edited _ whole
    exact ⟨buffer, edits, fun does => absurd does none⟩

end Whole

theorem openFile_of_begins {e : Editor} {s : Store} {encoding : Store.Encoding} {path : String}
    {start : List String} (begins : Begins s encoding path start) :
    e.openFile s encoding path =
      (.ok (), { e with path, saved := false, buffer := start, mode := .insert }) := by
  cases begins with
  | missing none =>
      rw [openFile]
      simp only [none]
      rfl
  | read there read =>
      rw [openFile]
      simp only [there, read, if_true]

theorem exists_begins {e : Editor} {s : Store} {encoding : Store.Encoding} {path : String}
    (opened : (e.openFile s encoding path).1 = .ok ()) : ∃ start, Begins s encoding path start := by
  cases there : s.isFile path with
  | false => exact ⟨_, .missing there⟩
  | true =>
      cases read : s.readText path encoding with
      | ok text => exact ⟨_, .read there read⟩
      | error f =>
          rw [openFile] at opened
          simp only [there, read, if_true] at opened
          cases opened

section Edit
variable {encoding : Store.Encoding} {path : String} {input buffer start : List String} {t : Step}

/-- An editor that has opened a file and greets. -/
def Step.opened (t : Step) (path : String) (start : List String) : Step :=
  let editor : Editor := { t.editor with path, saved := false, buffer := start, mode := .insert }
  Step.print { t with editor } [.line editor.greeting]

theorem edit_of_begins (begins : Begins t.store encoding path start) :
    edit encoding path input t = typeLines encoding input (t.opened path start) := by
  rw [edit, openFile_of_begins begins]
  rfl

theorem edit_of_obeyed (obeyed : Obeyed t.store encoding path input buffer) :
    ∃ t', edit encoding path input t = (.ok (), t', unreadLines input) ∧
      Ends t.store encoding path input buffer t' := by
  obtain ⟨⟨start, begins, edits⟩, written⟩ := obeyed
  rw [edit_of_begins begins]
  exact typeLines_follows (t := t.opened path start) rfl rfl edits written

theorem obeyed_of_edit (done : (edit encoding path input t).1 = .ok ()) :
    ∃ buffer, Obeyed t.store encoding path input buffer := by
  have opens : (t.editor.openFile t.store encoding path).1 = .ok () := by
    rw [edit] at done
    split at done
    · cases done
    · next same => rw [same]
  obtain ⟨start, begins⟩ := exists_begins opens
  rw [edit_of_begins begins] at done
  obtain ⟨buffer, edits, written⟩ := exists_buffer (t := t.opened path start) rfl done
  exact ⟨buffer, ⟨start, begins, edits⟩, written⟩

end Edit

/-- The editor is a machine on a buffer. Editing a file with typed lines returns exactly if whatever
the lines ask for can be read and a save can write the buffer. It then has saved just if a line that
saves comes before any that leaves, and has read no line behind the one that ended it; the store has
the text of the buffer in the file and is else as it was, or is as it was if nothing was saved. -/
theorem edit_follows_lines (encoding : Store.Encoding) (path : String) (input : List String)
    (t : Step) :
    ((edit encoding path input t).1 = .ok () ↔
      ∃ buffer, Obeyed t.store encoding path input buffer) ∧
    ∀ buffer, Obeyed t.store encoding path input buffer →
      ∃ t', edit encoding path input t = (.ok (), t', unreadLines input) ∧
        (t'.editor.saved = true ↔ Saves input) ∧
        (t'.editor.saved = true →
          t.store.TookText path encoding (String.intercalate "\n" buffer) t'.store) ∧
        (t'.editor.saved = false → t'.store = t.store) := by
  refine ⟨⟨obeyed_of_edit, ?_⟩, ?_⟩
  · rintro ⟨buffer, obeyed⟩
    obtain ⟨t', ran, -⟩ := edit_of_obeyed obeyed
    rw [ran]
  · intro buffer obeyed
    obtain ⟨t', ran, ends⟩ := edit_of_obeyed obeyed
    exact ⟨t', ran, ends.saved, fun saved => Store.tookText_of_written (ends.written saved),
      ends.kept⟩

def folderOf (bytes : ByteArray) : Store :=
  { now := ⟨0⟩, entries := [(["work", "a.txt"], .file bytes 420 ⟨0⟩), (["work"], .folder 493), ([], .folder 493)] }

def letterStore : Store := folderOf ⟨#[120]⟩

theorem edit_follows_load :
    ∃ t', edit .utf8 "/work/b.txt" ["y", ":undo", ":LOAD a.txt ", "z", ": show", ":\tSave it", "left"]
        { editor := {}, store := letterStore } = (.ok (), t', ["left"]) ∧
      letterStore.TookText "/work/b.txt" .utf8 "x\nz" t'.store := by
  let input := ["y", ":undo", ":LOAD a.txt ", "z", ": show", ":\tSave it", "left"]
  have typed : typedLines input = ["y", ":undo", ":LOAD a.txt ", "z", ": show"] := by
    decide +kernel
  have unread : unreadLines input = ["left"] := by decide +kernel
  have undo := command?_eq_undo_iff.mp (show command? ":undo" = some .undo by decide +kernel)
  have load := command?_eq_load_iff.mp
    (show command? ":LOAD a.txt " = some (.load "a.txt") by decide +kernel)
  have shows : command? ": show" = some .print := by decide +kernel
  have saves : Saves input := by
    obtain ⟨argument, called⟩ := command?_eq_save_iff.mp
      (show command? ":\tSave it" = some .save by decide +kernel)
    refine ⟨typedLines input, _, ["left"], argument, ?_, called, fun l member argument' left => ?_⟩
    · rw [typed]
      rfl
    · exact (input_cases input).1 l member ⟨argument', .inr left⟩
  have obeyed : Obeyed letterStore .utf8 "/work/b.txt" input ["x", "z"] := by
    have opens : letterStore.opened "/work/b.txt" .utf8 =
      .ok (["work", "b.txt"], ByteArray.empty, 420) := by decide
    refine ⟨⟨[], .missing (by decide), ?_⟩, fun _ => ⟨_, Store.writeText_of_opened opens _⟩⟩
    rw [typed]
    have finds : Finds letterStore "/work/b.txt" "a.txt" := ⟨by decide +kernel, by decide⟩
    have read : letterStore.readText (beside "/work/b.txt" "a.txt") .utf8 = .ok "x" := by
      decide +kernel
    obtain ⟨_, undo⟩ := undo
    refine .cons (.text (by decide)) (.cons (.undo undo) (.cons (.load load finds read)
      (.cons (.text (by decide)) (.cons (.other (by decide) ?_ ?_) .nil))))
    · intro argument called
      rw [command?_eq_undo_iff.mpr ⟨argument, called⟩] at shows
      cases shows
    · intro file called
      rw [command?_eq_load_iff.mpr called] at shows
      cases shows
  obtain ⟨t', ran, saved, took, -⟩ := (edit_follows_lines .utf8 "/work/b.txt" input
    { editor := {}, store := letterStore }).2 _ obeyed
  rw [unread] at ran
  exact ⟨t', ran, took (saved.mpr saves)⟩

end Editor

end FileQuery
