import FileQuery.Execution.Single
import FileQuery.Proofs.Editor
import FileQuery.Proofs.Execution.Action
import FileQuery.Proofs.Store.Entries

/-! When statements about named entries stray, with the default settings. What asks first whether an
entry is there never strays at that entry's own path. The wildcard strays where the folder cannot be
listed, and with the entries it stands for, each in its turn. -/
set_option autoImplicit false
namespace FileQuery.Action

open Store (Stray hasNul)

variable {r : Run}

theorem strays_create (kind : Kind) (name : String) :
    (create kind name {}).Strays r ↔ hasNul (r.session.resolve [name]) = true := by
  rw [create, strays_next (on_resolve _), strays_next (on_present _ _)]
  cases held : r.store.holds (r.session.resolve [name]) none with
  | true => simp [Store.plain_of_holds held]
  | false =>
      simp only [Bool.false_eq_true, if_false]
      cases kind with
      | folder =>
          rw [strays_change_bind (by simp)]
          cases nul : hasNul (r.session.resolve [name]) with
          | true => simp [Store.makeFolder_of_hasNul nul, Store.stray_error, Store.Fault.isReadable]
          | false => simp [(Store.refusable_makeFolder nul r.store).not_stray]
      | file =>
          rw [strays_change_bind (by simp)]
          refine Store.stray_writeText.trans ?_
          simp

theorem strays_forTargets {kind : Kind} {name : String} {work : String → Action Unit} :
    (forTargets kind name work).Strays r ↔
      if name ≠ wildcard then (work name).Strays r
      else r.store.Unlistable r.session.folder ∨
        ∃ records notes, listFolder r.store r.session.folder (some kind) = .ok (records, notes) ∧
        (records.forM fun record =>
          guardItem Store.Fault.isReadable
            (fun cause =>
              emit .error (kind.label ++ " \"" ++ record.name ++ "\": " ++ cause) (some record.name))
            (work record.name)).Strays { r with log := r.log ++ notes } := by
  rw [forTargets]
  split
  · rfl
  · rw [strays_next on_get, strays_listing]
    refine or_congr_right (exists_congr fun records => exists_congr fun notes =>
      and_congr_right fun _ => ?_)
    cases records with
    | nil =>
        simp only [List.isEmpty_nil, if_true]
        rw [strays_next (on_emit _ _ _)]
        exact iff_of_false (not_strays_pure ()) (not_strays_pure ())
    | cons first rest => rfl

/-- Work on a name that never strays does on the wildcard only where the folder cannot be listed. -/
theorem strays_forTargets_of_calm {work : String → Action Unit}
    (calm : ∀ name r, ¬ (work name).Strays r) (kind : Kind) (name : String) :
    (forTargets kind name work).Strays r ↔
      name = wildcard ∧ r.store.Unlistable r.session.folder := by
  rw [strays_forTargets]
  split
  · next other => exact iff_of_false (calm name r) fun both => other both.1
  · next same =>
      rw [and_iff_right (Decidable.not_not.mp same)]
      refine or_iff_left ?_
      rintro ⟨records, notes, _, strays⟩
      refine not_strays_forM (fun record _ r => ?_) _ strays
      rw [strays_guardItem (by simp)]
      exact calm record.name r

/-- Work on an item that comes down to a change of the store. -/
def Does {ι : Type} (work : ι → Action Unit) (c : Session → ι → Store.Change) : Prop :=
  ∀ x (r : Run), ∃ r', (work x).on r = ((c r.session x r.store).1.mapError .store, r') ∧
    r'.session = r.session ∧ r'.store = (c r.session x r.store).2

theorem Does.strays {ι : Type} {work : ι → Action Unit} {c : Session → ι → Store.Change}
    (does : Does work c) (x : ι) : (work x).Strays r ↔ Stray (c r.session x r.store).1 := by
  obtain ⟨r', done, -, -⟩ := does x r
  rw [Strays, done]
  exact stray_mapError

theorem on_change_emit (c : Store.Change) (level : Level) (message : String) (item : Option String)
    (r : Run) :
    ∃ r', (change c >>= fun _ => emit level message item).on r =
        ((c r.store).1.mapError .store, r') ∧
      r'.session = r.session ∧ r'.store = (c r.store).2 := by
  rw [on_bind, on_change]
  cases (c r.store).1 <;> exact ⟨_, rfl, rfl, rfl⟩

section Does
variable {work : String → Action Unit} {c : Session → String → Store.Change} (does : Does work c)
include does

/-- An item that does not stray leaves the store to the next one, whether it was changed or not. -/
theorem Does.on_guarded {session : Session} (known : r.session = session) (name : String)
    (calm : ¬ Stray (c session name r.store).1) (report : String → String) (item : Option String) :
    ∃ r', (guardItem Store.Fault.isReadable (fun cause => emit .error (report cause) item)
        (work name)).on r = (.ok (), r') ∧ r'.session = session ∧
      r'.store = (c session name r.store).2 := by
  subst known
  obtain ⟨r', done, session, store⟩ := does name r
  rw [on_guardItem, done]
  cases changed : (c r.session name r.store).1 with
  | ok _ => exact ⟨r', rfl, session, store⟩
  | error f =>
      have readable : f.isReadable = true := by simpa [changed, Store.stray_error] using calm
      simp only [mapError_error, readable, if_true, on_emit]
      exact ⟨_, rfl, session, store⟩

theorem Does.strays_forTargets (kind : Kind) (name : String) :
    (forTargets kind name work).Strays r ↔
      if name ≠ wildcard then Stray (c r.session name r.store).1
      else r.store.Unlistable r.session.folder ∨
        ∃ records notes, listFolder r.store r.session.folder (some kind) = .ok (records, notes) ∧
          MetInTurn (fun name s => Stray (c r.session name s).1) (fun name s => (c r.session name s).2)
            (records.map Record.name) r.store := by
  rw [Action.strays_forTargets]
  split
  · exact does.strays name
  · refine or_congr_right (exists_congr fun records => exists_congr fun notes =>
      and_congr_right fun _ => ?_)
    rw [metInTurn_map]
    refine strays_forM (fun r' => r'.store) (fun r' => r'.session = r.session) ?_ ?_ _ rfl
    · intro record _ r' known
      rw [strays_guardItem (by simp), does.strays, known]
    · intro record _ r' known calm
      exact does.on_guarded known record.name calm _ (some record.name)

end Does

theorem strays_readFile (name : String) :
    (readFile name {}).Strays r ↔ name = wildcard ∧ r.store.Unlistable r.session.folder := by
  refine strays_forTargets_of_calm (fun name r => ?_) .file name
  rw [strays_next (on_resolve _), strays_next (on_present _ _)]
  cases held : r.store.holds (r.session.resolve [name]) (some .file) with
  | false => simp [missing]
  | true =>
      simp only [if_true]
      rw [strays_bind_of_calm (by simp), strays_look]
      rintro ⟨f, stopped, stray⟩
      rw [Store.readText_isReadable (Store.plain_of_holds held) stopped] at stray
      cases stray

theorem strays_writeFile (name content : String) :
    (writeFile name content {}).Strays r ↔
      hasNul (r.session.resolve [name]) = true ∨
        (r.store.target (r.session.resolve [name])).isOk = true ∧
          ∃ points, Text.decodeEscapes content.toList = .ok points ∧
            ∃ n ∈ points, Text.isSurrogate n = true := by
  rw [writeFile]
  cases decoded : Text.decodeEscapes content.toList with
  | ok points =>
      rw [strays_next (on_pure points), strays_next (on_resolve _),
        strays_change_bind (by simp)]
      refine Store.stray_writeText.trans ?_
      simp
  | error e =>
      simp only
      rw [strays_next (on_emit _ _ _), strays_next (on_pure _), strays_next (on_resolve _),
        strays_change_bind (by simp)]
      refine Store.stray_writeText.trans ?_
      simp [Store.plain_ofString]

theorem strays_appendFile (name content : String) :
    (appendFile name content {}).Strays r ↔ hasNul (r.session.resolve [name]) = true := by
  rw [appendFile, strays_next (on_resolve _), strays_change_bind (by simp)]
  refine Store.stray_appendText.trans ?_
  simp only [Store.plain_ofString, and_false, or_false]

theorem strays_editFile (name : String) :
    (editFile name {}).Strays r ↔
      r.editor.isSome = true ∧ hasNul (r.session.resolve [name]) = true ∧
        Editor.ComesToSave r.store (r.session.resolve [name]) r.input := by
  rw [editFile, strays_next on_get]
  cases present : r.editor with
  | none => simp
  | some editor =>
      simp only
      rw [strays_next (on_resolve _)]
      have edited := Editor.stray_edit (r.session.resolve [name]) r.input
        { editor, store := r.store }
      rcases done : Editor.edit .utf8 (r.session.resolve [name]) r.input
        { editor, store := r.store } with ⟨f | _, step, input⟩
      · simp only [done, Store.stray_error] at edited ⊢
        rw [strays_next (on_modify _), strays_throw]
        simpa [Fault.Stray] using edited
      · have calm : ¬ Stray (Except.ok () : Except Store.Fault Unit) := Store.not_stray_ok ()
        simp only [done, calm, false_iff] at edited ⊢
        rw [strays_next (on_modify _)]
        refine iff_of_false ?_ (by simpa using edited)
        split <;> simp

/-! Deletions. -/

/-- The change that deletes an entry of a kind. -/
def removal (kind : Kind) (path : String) : Store.Change :=
  match kind with
  | .folder => Store.removeTree path
  | .file => Store.removeFile path

/-- What a deletion does for a name: nothing where there is no entry of the kind. -/
def deletion (kind : Kind) (session : Session) (name : String) : Store.Change := fun s =>
  if s.holds (session.resolve [name]) (some kind) then removal kind (session.resolve [name]) s
  else (.ok (), s)

def deleteWork (kind : Kind) (name : String) : Action Unit := do
  let path ← resolve [name]
  if ← present path (some kind) then
    match kind with
    | .folder => change (Store.removeTree path)
    | .file => change (Store.removeFile path)
    emit .success (kind.label ++ " \"" ++ name ++ "\" deleted.") (some name)
  else missing kind name

theorem deleteWork_does (kind : Kind) : Does (deleteWork kind) (deletion kind) := by
  intro name r
  simp only [deleteWork, deletion, on_bind, on_resolve, on_present]
  cases r.store.holds (r.session.resolve [name]) (some kind) with
  | false => exact ⟨_, rfl, rfl, rfl⟩
  | true =>
      simp only [if_true]
      cases kind <;> exact on_change_emit _ _ _ _ r

theorem stray_removal {kind : Kind} {path : String} {s : Store} (plain : hasNul path = false) :
    Stray (removal kind path s).1 ↔ kind = .folder ∧ s.TooHigh path := by
  cases kind with
  | folder => rw [removal, Store.stray_removeTree plain, and_iff_right rfl]
  | file =>
      rw [removal]
      exact iff_of_false (Store.refusable_removeFile plain s).not_stray (by simp)

theorem refusable_removal {kind : Kind} {path : String} {s : Store} (plain : hasNul path = false)
    (low : ¬ (kind = .folder ∧ s.TooHigh path)) : Store.Refusable (removal kind path s).1 := by
  cases kind with
  | folder => exact Store.refusable_removeTree plain fun high => low ⟨rfl, high⟩
  | file => exact Store.refusable_removeFile plain s

theorem stray_deletion {kind : Kind} {session : Session} {name : String} {s : Store} :
    Stray (deletion kind session name s).1 ↔
      kind = .folder ∧ s.TooHigh (session.resolve [name]) := by
  rw [deletion]
  cases held : s.holds (session.resolve [name]) (some kind) with
  | false =>
      refine iff_of_false (Store.not_stray_ok ()) ?_
      rintro ⟨rfl, place, mode, ends, -⟩
      have isFolder : s.isFolder (session.resolve [name]) = true :=
        Store.isFolder_of_stat (Store.stat_follow (by simp) ends)
      exact absurd held (by simp [Store.holds, isFolder])
  | true =>
      rw [if_pos rfl]
      exact stray_removal (Store.plain_of_holds held)

theorem strays_delete (kind : Kind) (name : String) :
    (delete kind name).Strays r ↔
      if name ≠ wildcard then kind = .folder ∧ r.store.TooHigh (r.session.resolve [name])
      else r.store.Unlistable r.session.folder ∨
        ∃ records notes, listFolder r.store r.session.folder (some kind) = .ok (records, notes) ∧
          MetInTurn (fun name s => kind = .folder ∧ s.TooHigh (r.session.resolve [name]))
            (fun name s => (deletion kind r.session name s).2) (records.map Record.name) r.store := by
  have same : delete kind name = forTargets kind name (deleteWork kind) := rfl
  simp only [← stray_deletion]
  rw [same]
  exact (deleteWork_does kind).strays_forTargets kind name

/-! Transfers. -/

/-- Whether a transfer from an entry that is there stops at what is no refusal: at a NUL in the path it
goes to, or at a tree that is too high for a copy or to have itself in it. -/
def TransferStops (mode : Transfer) (kind : Kind) (source destination : String) (s : Store) : Prop :=
  hasNul destination = true ∨
    mode = .copy ∧ kind = .folder ∧ (Store.copyTree source destination s).1 = .error .nested

theorem transferChange_of_hasNul {source destination : String} (nul : hasNul destination = true)
    (mode : Transfer) (kind : Kind) (s : Store) :
    transferChange mode kind source destination s = (.error .nulInPath, s) := by
  cases mode with
  | move => exact Store.move_of_hasNul (.inr nul) s
  | copy =>
      cases kind with
      | folder => exact Store.copyTree_of_hasNul (.inr nul) s
      | file => exact Store.copyFile_of_hasNul (.inr nul) s

theorem limited_transferChange {source destination : String} (plain : hasNul source = false)
    (plain' : hasNul destination = false) (mode : Transfer) (kind : Kind) (s : Store) :
    Store.Limited (transferChange mode kind source destination s).1 := by
  cases mode with
  | move => exact (Store.refusable_move plain plain' s).limited
  | copy =>
      cases kind with
      | folder => exact Store.limited_copyTree plain plain' s
      | file => exact (Store.refusable_copyFile plain plain' s).limited

theorem stray_transferChange {source destination : String} (plain : hasNul source = false)
    (mode : Transfer) (kind : Kind) (s : Store) :
    Stray (transferChange mode kind source destination s).1 ↔
      TransferStops mode kind source destination s := by
  rw [TransferStops]
  cases nul : hasNul destination with
  | true =>
      rw [transferChange_of_hasNul nul]
      exact iff_of_true (Store.stray_error.mpr rfl) (.inl rfl)
  | false =>
      cases mode with
      | move => exact iff_of_false (Store.refusable_move plain nul s).not_stray (by simp)
      | copy =>
          cases kind with
          | folder => exact (Store.stray_copyTree plain nul).trans (by simp)
          | file => exact iff_of_false (Store.refusable_copyFile plain nul s).not_stray (by simp)

theorem refusable_transferChange {source destination : String} (plain : hasNul source = false)
    {mode : Transfer} {kind : Kind} {s : Store}
    (calm : ¬ TransferStops mode kind source destination s) :
    Store.Refusable (transferChange mode kind source destination s).1 := by
  have plain' : hasNul destination = false := Bool.eq_false_iff.mpr fun nul => calm (.inl nul)
  intro f stopped
  rcases limited_transferChange plain plain' mode kind s f stopped with refusal | rfl
  · exact refusal
  · rw [← stray_transferChange plain, stopped, Store.stray_error] at calm
    exact absurd rfl calm

/-- Where a transfer takes what a name stands for. -/
def destination (session : Session) (target name : String) : String :=
  session.resolve [target, String.ofList (Path.baseName name.toList)]

/-- What a transfer does for a name: nothing where there is no entry of the kind. -/
def transfers (mode : Transfer) (kind : Kind) (target : String) (session : Session) (name : String) :
    Store.Change := fun s =>
  if s.holds (session.resolve [name]) (some kind) then
    transferChange mode kind (session.resolve [name]) (destination session target name) s
  else (.ok (), s)

/-- Whether a name stands for something whose transfer stops at what is no refusal. -/
def MeetsStop (mode : Transfer) (kind : Kind) (target : String) (session : Session) (name : String)
    (s : Store) : Prop :=
  s.holds (session.resolve [name]) (some kind) = true ∧
    TransferStops mode kind (session.resolve [name]) (destination session target name) s

def transferWork (mode : Transfer) (kind : Kind) (target name : String) : Action Unit := do
  let source ← resolve [name]
  if ← present source (some kind) then
    let destination ← resolve [target, String.ofList (Path.baseName name.toList)]
    change (transferChange mode kind source destination)
    transferred mode kind name target
  else missing kind name

theorem transferWork_does (mode : Transfer) (kind : Kind) (target : String) :
    Does (transferWork mode kind target) (transfers mode kind target) := by
  intro name r
  rw [transferWork, transfers, on_bind, on_resolve]
  dsimp only
  rw [on_bind, on_present]
  cases r.store.holds (r.session.resolve [name]) (some kind) with
  | false => exact ⟨_, rfl, rfl, rfl⟩
  | true =>
      dsimp only
      rw [if_pos rfl, if_pos rfl, on_bind, on_resolve]
      exact on_change_emit (transferChange mode kind (r.session.resolve [name])
        (destination r.session target name)) _ _ _ r

theorem stray_transfers {mode : Transfer} {kind : Kind} {target : String} {session : Session}
    {name : String} {s : Store} :
    Stray (transfers mode kind target session name s).1 ↔
      MeetsStop mode kind target session name s := by
  rw [transfers, MeetsStop]
  cases held : s.holds (session.resolve [name]) (some kind) with
  | false => exact iff_of_false (Store.not_stray_ok ()) (by simp)
  | true =>
      rw [if_pos rfl, stray_transferChange (Store.plain_of_holds held)]
      simp

theorem strays_transfer (mode : Transfer) (kind : Kind) (name target : String) :
    (transfer mode kind name target).Strays r ↔
      if name ≠ wildcard then MeetsStop mode kind target r.session name r.store
      else r.store.Unlistable r.session.folder ∨
        ∃ records notes, listFolder r.store r.session.folder (some kind) = .ok (records, notes) ∧
          MetInTurn (MeetsStop mode kind target r.session)
            (fun name s => (transfers mode kind target r.session name s).2)
            (records.map Record.name) r.store := by
  have same : transfer mode kind name target =
      forTargets kind name (transferWork mode kind target) := rfl
  have met : (fun name s => Stray (transfers mode kind target r.session name s).1) =
      MeetsStop mode kind target r.session := by
    funext name s
    rw [stray_transfers]
  rw [same, (transferWork_does mode kind target).strays_forTargets, met, stray_transfers]

theorem strays_rename (kind : Kind) (old new : String) :
    (rename kind old new).Strays r ↔
      r.store.holds (r.session.resolve [old]) (some kind) = true ∧
        hasNul (r.session.resolve [new]) = true := by
  rw [rename, strays_next (on_resolve _), strays_next (on_present _ _)]
  cases held : r.store.holds (r.session.resolve [old]) (some kind) with
  | false => simp
  | true =>
      simp only [if_true, true_and]
      rw [strays_next (on_resolve _), strays_change_bind (by simp)]
      exact (stray_transferChange (Store.plain_of_holds held) .move kind r.store).trans
        (by simp [TransferStops])

theorem not_strays_chmod (name mode : String) : ¬ (chmod name mode).Strays r := by
  rw [chmod, strays_next (on_resolve _), strays_next (on_present _ _)]
  cases held : r.store.holds (r.session.resolve [name]) none with
  | false => simp
  | true =>
      simp only [if_true]
      rw [strays_change_bind (by simp)]
      exact (Store.refusable_setMode (Store.plain_of_holds held) _ r.store).not_stray

/-! Merges. -/

/-- What a merge takes from a source: nothing from one that is not there or cannot be read. -/
def mergedPart (settings : Settings) (s : Store) (session : Session) (name : String) :
    Except Store.Fault String :=
  if s.isFile (session.resolve [name]) then
    match s.readText (session.resolve [name]) settings.encoding with
    | .ok text => .ok (text ++ "\n")
    | .error f => if f.isReadable then .ok "" else .error f
  else .ok ""

def mergedText (settings : Settings) (s : Store) (session : Session) (sources : List String) :
    Except Store.Fault String :=
  (sources.mapM (mergedPart settings s session)).map String.join

/-- What a merge reports of a source: that it is not there, or that it cannot be read. -/
def sourceReport? (settings : Settings) (s : Store) (session : Session) (name : String) :
    Option Event :=
  if s.isFile (session.resolve [name]) then
    match s.readText (session.resolve [name]) settings.encoding with
    | .ok _ => none
    | .error f => some
        { level := .error, message := "Cannot read file \"" ++ name ++ "\": " ++ f.message,
          item := some name }
  else some
    { level := .warning, message := "File \"" ++ name ++ "\" does not exist, skipping.",
      item := some name }

theorem on_mergePart_eq (settings : Settings) (name : String) :
    (mergePart settings name).on r =
      match mergedPart settings r.store r.session name with
      | .ok text =>
        (.ok text, r.reportedAll (sourceReport? settings r.store r.session name).toList)
      | .error f => (.error (.store f), r) := by
  have same : r.store.holds (r.session.resolve [name]) (some .file) =
      r.store.isFile (r.session.resolve [name]) := rfl
  simp only [mergePart, mergedPart, sourceReport?, on_bind, on_resolve, on_present, same]
  cases r.store.isFile (r.session.resolve [name]) with
  | false => rfl
  | true =>
      simp only [if_true, on_tryCatch, on_bind, on_look]
      cases r.store.readText (r.session.resolve [name]) settings.encoding with
      | ok text => simp
      | error f =>
          simp only [mapError_error]
          cases f.isReadable <;> rfl

/-- Sources that can be passed over or taken are all reported on, in their order. -/
theorem on_mergeParts_eq (settings : Settings) (sources : List String) : ∀ r : Run,
    match sources.mapM (mergedPart settings r.store r.session) with
    | .ok texts => (sources.mapM (mergePart settings)).on r =
        (.ok texts, r.reportedAll (sources.filterMap (sourceReport? settings r.store r.session)))
    | .error f => ∃ es, (sources.mapM (mergePart settings)).on r =
        (.error (.store f), r.reportedAll es) := by
  induction sources with
  | nil => exact fun r => by rw [List.mapM_nil, List.filterMap_nil, r.reportedAll_nil]; rfl
  | cons name rest ih =>
      intro r
      have first := on_mergePart_eq (r := r) settings name
      rw [List.mapM_cons, List.mapM_cons]
      cases part : mergedPart settings r.store r.session name with
      | error f =>
          rw [part] at first
          exact ⟨[], by rw [on_bind, first, r.reportedAll_nil]⟩
      | ok text =>
          rw [part] at first
          -- nothing that is reported of the first changes what the others are found to be
          have others := ih (r.reportedAll (sourceReport? settings r.store r.session name).toList)
          rw [Run.reportedAll_store, Run.reportedAll_session] at others
          cases parts : rest.mapM (mergedPart settings r.store r.session) with
          | error f =>
              rw [parts] at others
              obtain ⟨es, others⟩ := others
              refine ⟨(sourceReport? settings r.store r.session name).toList ++ es, ?_⟩
              rw [on_bind, first]
              simp only [on_bind, others, Run.reportedAll_append]
          | ok texts =>
              rw [parts] at others
              have whole : (sourceReport? settings r.store r.session name).toList ++
                  rest.filterMap (sourceReport? settings r.store r.session) =
                  (name :: rest).filterMap (sourceReport? settings r.store r.session) := by
                cases found : sourceReport? settings r.store r.session name <;> simp [found]
              rw [on_bind, first]
              simp only [on_bind, others, Run.reportedAll_append, whole]
              rfl

theorem exists_mergedPart (s : Store) (session : Session) (name : String) :
    ∃ text, mergedPart {} s session name = .ok text := by
  rw [mergedPart]
  cases held : s.isFile (session.resolve [name]) with
  | false => exact ⟨_, rfl⟩
  | true =>
      simp only [if_true]
      cases read : s.readText (session.resolve [name]) ({} : Settings).encoding with
      | ok text => exact ⟨_, rfl⟩
      | error f =>
          have readable := Store.readText_isReadable (Store.plain_of_isFile held) read
          exact ⟨"", by simp only [readable, if_true]⟩

theorem on_mergeParts (sources : List String) (r : Run) :
    ∃ texts es, (sources.mapM (mergePart {})).on r = (.ok texts, r.reportedAll es) := by
  have read := on_mergeParts_eq {} sources r
  have each : ∃ texts, sources.mapM (mergedPart {} r.store r.session) = .ok texts := by
    clear read
    induction sources with
    | nil => exact ⟨[], rfl⟩
    | cons name rest ih =>
        obtain ⟨text, part⟩ := exists_mergedPart r.store r.session name
        obtain ⟨texts, parts⟩ := ih
        exact ⟨text :: texts, by rw [List.mapM_cons, part, parts]; rfl⟩
  obtain ⟨texts, parts⟩ := each
  rw [parts] at read
  exact ⟨texts, _, read⟩

theorem strays_merge (sources : List String) (destination : String) :
    (merge sources destination {}).Strays r ↔
      hasNul (r.session.resolve [destination]) = true := by
  obtain ⟨texts, es, read⟩ := on_mergeParts sources r
  rw [merge, strays_next read, strays_next (on_resolve _), strays_change_bind (by simp),
    r.reportedAll_session]
  refine Store.stray_writeText.trans ?_
  simp [Store.plain_ofString]

end FileQuery.Action
