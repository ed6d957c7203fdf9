import FileQuery.Editor
import FileQuery.Proofs.Store.Change

/-! When editing a file stops at a fault other than a refusal of the store or bytes that are no
text. Only a save looks at the path of the file without asking first whether there is a file. -/
set_option autoImplicit false
namespace FileQuery.Editor

open Store (Stray hasNul)

def command? (line : String) : Option Command :=
  match line.toList with
  | ':' :: text => some (.ofText text)
  | _ => none

/-- Whether loading a file does not stop, be it because there is nothing to load. -/
def Loads (s : Store) (path file : String) : Prop :=
  let source := String.ofList (Path.join (Path.parent path.toList) file.toList)
  (Text.words file.toList).length = 1 → s.isFile source = true →
    (s.readText source .utf8).isOk = true

def ComesToSave (s : Store) (path : String) : List String → Prop
  | [] => False
  | line :: rest =>
    match command? line with
    | some .save => True
    | some .exit => False
    | some (.load file) => Loads s path file ∧ ComesToSave s path rest
    | _ => ComesToSave s path rest

/-- Typing goes on, in the same file and with the same store. -/
structure GoesOn (t t' : Step) : Prop where
  mode : t'.editor.mode = .insert
  path : t'.editor.path = t.editor.path
  store : t'.store = t.store

def Step.obeying (t : Step) : Step := { t with editor := { t.editor with mode := .command } }

section Fed
variable (encoding : Store.Encoding) {line : String}

theorem feed_of_command {c : Command} (typed : command? line = some c) (t : Step) :
    feed encoding line t = obey encoding c t.obeying := by
  have colon : ∃ text, line.toList = ':' :: text ∧ Command.ofText text = c := by
    unfold command? at typed
    split at typed
    · next text same => exact ⟨text, same, Option.some.inj typed⟩
    · cases typed
  obtain ⟨text, same, rfl⟩ := colon
  simp only [feed, same, Step.obeying]

theorem feed_of_text (typed : command? line = none) (t : Step) :
    feed encoding line t =
      (.ok (), { t with editor := { t.editor with buffer := t.editor.buffer ++ [line] } }) := by
  have plain : ∀ text, line.toList ≠ ':' :: text := by
    intro text same
    simp [command?, same] at typed
  unfold feed
  split
  · next text same => exact absurd same (plain text)
  · rfl

end Fed

theorem obey_load (file : String) (t : Step) :
    match obey .utf8 (.load file) t with
    | (.ok _, t') => GoesOn t t' ∧ Loads t.store t.editor.path file
    | (.error f, _) => f.isReadable = true ∧ ¬ Loads t.store t.editor.path file := by
  by_cases word : (Text.words file.toList).length = 1
  · cases isFile : t.store.isFile
        (String.ofList (Path.join (Path.parent t.editor.path.toList) file.toList)) with
    | false =>
        simp only [obey, loadFile, word, isFile]
        exact ⟨⟨rfl, rfl, rfl⟩, by simp [Loads, isFile]⟩
    | true =>
        cases read : t.store.readText
            (String.ofList (Path.join (Path.parent t.editor.path.toList) file.toList)) .utf8 with
        | error f =>
            simp only [obey, loadFile, word, isFile, read]
            refine ⟨Store.readText_isReadable (Store.plain_of_isFile isFile) read, ?_⟩
            simp [Loads, word, isFile, read, Except.isOk, Except.toBool]
        | ok text =>
            simp only [obey, loadFile, word, isFile, read]
            exact ⟨⟨rfl, rfl, rfl⟩, by simp [Loads, read, Except.isOk, Except.toBool]⟩
  · simp only [obey, loadFile, word, ne_eq, not_false_eq_true, if_true]
    exact ⟨⟨rfl, rfl, rfl⟩, by simp [Loads, word]⟩

/-- A save closes the editor, or stops at a stray fault just if the path has a NUL. -/
theorem obey_save (t : Step) :
    (Stray (obey .utf8 .save t).1 ↔ hasNul t.editor.path = true) ∧
      ∀ t', obey .utf8 .save t = (.ok (), t') → t'.editor.mode = .closed := by
  let text : Text.CodePoints := .ofString (String.intercalate "\n" t.editor.buffer)
  have written : Stray (Store.writeText t.editor.path text .utf8 t.store).1 ↔ _ :=
    Store.stray_writeText
  simp only [text, Store.plain_ofString, and_false, or_false] at written
  rw [← written, obey]
  rcases Store.writeText t.editor.path text .utf8 t.store with ⟨f | _, s⟩
  · refine ⟨by simp only [Store.stray_error], fun t' done => ?_⟩
    cases done
  · refine ⟨iff_of_false (Store.not_stray_ok _) (Store.not_stray_ok _), fun t' done => ?_⟩
    cases done
    rfl

/-- Typed lines stop at a stray fault just if they save a file whose path has a NUL. -/
theorem stray_typeLines (lines : List String) : ∀ t : Step, t.editor.mode = .insert →
    (Stray (typeLines .utf8 lines t).1 ↔
      hasNul t.editor.path = true ∧ ComesToSave t.store t.editor.path lines) := by
  induction lines with
  | nil =>
      intro t _
      exact iff_of_false (Store.not_stray_ok _) fun both => both.2
  | cons line rest ih =>
      intro t insert
      let prompted := t.print [.prompt t.editor.prompt]
      have onward : ∀ t' : Step, feed .utf8 line prompted = (.ok (), t') → GoesOn t t' →
          (Stray (typeLines .utf8 (line :: rest) t).1 ↔
            hasNul t.editor.path = true ∧ ComesToSave t.store t.editor.path rest) := by
        intro t' fed on
        rw [← on.path, ← on.store, ← ih t' on.mode]
        simp only [typeLines, prompted] at fed ⊢
        simp only [fed, on.mode]
        rfl
      rw [ComesToSave]
      cases typed : command? line with
      | none => exact onward _ (feed_of_text .utf8 typed prompted) ⟨insert, rfl, rfl⟩
      | some c =>
          have fed := feed_of_command .utf8 typed prompted
          cases c with
          | save =>
              obtain ⟨strays, closes⟩ := obey_save prompted.obeying
              rw [← fed] at strays closes
              simp only [and_true]
              refine Iff.trans ?_ strays
              simp only [typeLines, prompted] at closes ⊢
              rcases done : feed .utf8 line (t.print [.prompt t.editor.prompt]) with ⟨f | _, t'⟩
              · simp only [Store.stray_error]
              · simp only [closes t' done, if_true]
          | exit =>
              simp only [and_false, iff_false]
              simp only [typeLines, prompted] at fed ⊢
              rw [fed]
              exact Store.not_stray_ok _
          | load file =>
              have loaded := obey_load file prompted.obeying
              rw [← fed] at loaded
              rcases done : feed .utf8 line prompted with ⟨f | _, t'⟩
              · simp only [done] at loaded
                obtain ⟨readable, stops⟩ := loaded
                refine iff_of_false ?_ fun both => stops both.2.1
                simp only [typeLines, prompted] at done ⊢
                simp [done, Store.stray_error, readable]
              · simp only [done] at loaded
                rw [onward t' done ⟨loaded.1.mode, loaded.1.path, loaded.1.store⟩]
                simp only [and_congr_right_iff]
                exact fun _ => ⟨fun comes => ⟨loaded.2, comes⟩, fun both => both.2⟩
          | print => exact onward _ fed ⟨rfl, rfl, rfl⟩
          | undo => exact onward _ fed ⟨rfl, rfl, rfl⟩
          | unknown text => exact onward _ fed ⟨rfl, rfl, rfl⟩

/-- Editing stops at a stray fault just if the path of the file has a NUL and the typed lines come
to a save. -/
theorem stray_edit (path : String) (lines : List String) (t : Step) :
    Stray (edit .utf8 path lines t).1 ↔
      hasNul path = true ∧ ComesToSave t.store path lines := by
  have typed : ∀ editor : Editor, editor.mode = .insert → editor.path = path →
      (Stray (typeLines .utf8 lines (Step.print { t with editor } [.line editor.greeting])).1 ↔
        hasNul path = true ∧ ComesToSave t.store path lines) := by
    intro editor insert same
    rw [stray_typeLines lines _ insert, ← same]
    rfl
  rw [edit, openFile]
  cases isFile : t.store.isFile path with
  | false => exact typed _ rfl rfl
  | true =>
      have plain := Store.plain_of_isFile isFile
      cases read : t.store.readText path .utf8 with
      | error f => simp [plain, Store.stray_error, Store.readText_isReadable plain read]
      | ok text => exact typed _ rfl rfl

end FileQuery.Editor
