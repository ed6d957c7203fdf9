import FileQuery.Proofs.Execution.Folder

/-! What statements about many entries begin with: the records of a folder that a clause keeps, and
one warning for each condition that failed. -/
set_option autoImplicit false
namespace FileQuery

/-- A run with a warning for each condition that failed. -/
def Run.warned (matcher : Matcher) (r : Run) : List Where.ConditionError → Run
  | [] => r
  | e :: rest => (r.reported .warning (e.message matcher) none).warned matcher rest

def Where.ConditionError.event (matcher : Matcher) (e : Where.ConditionError) : Event :=
  { level := .warning, message := e.message matcher }

namespace Run

/-- A run in which a folder was listed and a clause was tried on its records. -/
def listed (matcher : Matcher) (r : Run) (notes : List LogEntry) (errors : List Where.ConditionError) :
    Run :=
  { r with log := r.log ++ notes }.warned matcher errors

theorem warned_eq (matcher : Matcher) (errors : List Where.ConditionError) : ∀ r : Run, ∃ log,
    r.warned matcher errors = { r with events := r.events ++ errors.map (·.event matcher), log } := by
  induction errors with
  | nil => exact fun r => ⟨r.log, by rw [warned, List.map_nil, List.append_nil]⟩
  | cons e rest ih =>
      intro r
      obtain ⟨log, same⟩ := ih (r.reported .warning (e.message matcher) none)
      refine ⟨log, ?_⟩
      rw [warned, same, reported]
      simp [Where.ConditionError.event]

variable (matcher : Matcher) (r : Run) (notes : List LogEntry) (errors : List Where.ConditionError)

@[simp] theorem listed_events :
    (r.listed matcher notes errors).events = r.events ++ errors.map (·.event matcher) := by
  obtain ⟨log, same⟩ := warned_eq matcher errors { r with log := r.log ++ notes }
  rw [listed, same]

@[simp] theorem listed_store : (r.listed matcher notes errors).store = r.store := by
  obtain ⟨log, same⟩ := warned_eq matcher errors { r with log := r.log ++ notes }
  rw [listed, same]

@[simp] theorem listed_session : (r.listed matcher notes errors).session = r.session := by
  obtain ⟨log, same⟩ := warned_eq matcher errors { r with log := r.log ++ notes }
  rw [listed, same]

end Run

/-- What a statement about many entries selects: the records, in order, and the conditions that
failed, with what the log says of the listing. -/
def Source.selection (source : Source) (settings : Settings) (session : Session) (s : Store)
    (kind : Kind) (order : Option SortSpec) :
    Except Unlisted (Where.Reported (List Record) × List LogEntry) :=
  match source.folderIn? session s with
  | none => .error { fault := .command (.pathNotFound (source.folder.getD "") none) }
  | some folder =>
    match listFolder s folder (some kind) with
    | .error u => .error u
    | .ok (records, notes) =>
      match select (Action.contents settings s) source.clause order records with
      | .error e =>
        .error { fault := .command (.unknownSortField e (e.suggestion settings.matcher)), notes }
      | .ok selected => .ok (selected, notes)

theorem Source.listed_of_selection {source : Source} {settings : Settings} {session : Session}
    {s : Store} {kind : Kind} {order : Option SortSpec} {kept : List Record}
    {errors : List Where.ConditionError} {notes : List LogEntry}
    (found : source.selection settings session s kind order = .ok ((kept, errors), notes)) :
    ∃ folder records, source.folderIn? session s = some folder ∧
      listFolder s folder (some kind) = .ok (records, notes) ∧ ∀ r ∈ kept, r ∈ records := by
  rw [selection] at found
  cases folder : source.folderIn? session s with
  | none =>
      rw [folder] at found
      cases found
  | some folder' =>
      rw [folder] at found
      dsimp only at found
      rcases listed : listFolder s folder' (some kind) with e | ⟨records, notes'⟩
      · rw [listed] at found
        cases found
      · rw [listed] at found
        dsimp only at found
        rcases chosen : select (Action.contents settings s) source.clause order records with
          e | ⟨kept', errors'⟩
        · rw [chosen] at found
          cases found
        · rw [chosen] at found
          cases found
          exact ⟨folder', records, rfl, listed, fun r member => mem_of_mem_select chosen member⟩

namespace Action

variable {r : Run} {settings : Settings}

theorem on_warnings_eq (matcher : Matcher) (errors : List Where.ConditionError) : ∀ r : Run,
    (errors.forM fun e => emit .warning (e.message matcher)).on r = (.ok (), r.warned matcher errors) := by
  induction errors with
  | nil => exact fun _ => rfl
  | cons e rest ih => exact fun r => ih (r.reported .warning (e.message matcher) none)

section
variable {kind : Kind} {source : Source} {order : Option SortSpec}

theorem on_selection {kept : List Record} {errors : List Where.ConditionError} {notes : List LogEntry}
    (found : source.selection settings r.session r.store kind order = .ok ((kept, errors), notes)) :
    (sourceRecords kind source >>= selected settings source order).on r =
      (.ok kept, r.listed settings.matcher notes errors) := by
  rw [Source.selection] at found
  rw [on_bind, on_sourceRecords]
  cases folder : source.folderIn? r.session r.store with
  | none =>
      rw [folder] at found
      cases found
  | some folder' =>
      simp only [folder, on_listing] at found ⊢
      rcases entries : listFolder r.store folder' (some kind) with e | ⟨records, notes'⟩
      · rw [entries] at found
        cases found
      · simp only [entries, selected, on_bind, on_get] at found ⊢
        cases chosen : select (contents settings r.store) source.clause order records with
        | error e =>
            rw [chosen] at found
            cases found
        | ok reported =>
            rw [chosen] at found
            cases found
            simp only [on_bind, on_warnings_eq, on_pure, Run.listed]

theorem on_selection_of_stopped {u : Unlisted}
    (stopped : source.selection settings r.session r.store kind order = .error u) :
    (sourceRecords kind source >>= selected settings source order).on r =
      (.error u.fault, { r with log := r.log ++ u.notes }) := by
  rw [Source.selection] at stopped
  rw [on_bind, on_sourceRecords]
  cases folder : source.folderIn? r.session r.store with
  | none =>
      rw [folder] at stopped
      cases stopped
      simp
  | some folder' =>
      simp only [folder, on_listing] at stopped ⊢
      rcases entries : listFolder r.store folder' (some kind) with u' | ⟨records, notes⟩
      · rw [entries] at stopped
        cases stopped
        rfl
      · simp only [entries, selected, on_bind, on_get] at stopped ⊢
        cases chosen : select (contents settings r.store) source.clause order records with
        | error e' =>
            rw [chosen] at stopped
            cases stopped
            rfl
        | ok reported =>
            rw [chosen] at stopped
            cases stopped

end

end Action

theorem Source.fault_of_selection {source : Source} {settings : Settings} {session : Session}
    {s : Store} {kind : Kind} {order : Option SortSpec} {u : Unlisted}
    (stopped : source.selection settings session s kind order = .error u) :
    (∃ e, u.fault = .command e) ∨ u.fault.Stray := by
  rw [selection] at stopped
  split at stopped
  · cases stopped
    exact .inl ⟨_, rfl⟩
  · next folder _ =>
      have whole := listed s folder (some kind)
      split at stopped
      · next halted =>
          rw [halted] at whole
          cases stopped
          cases whole with
          | missing refused => exact .inl ⟨_, rfl⟩
          | halted unlistable stray => exact .inr stray
      · split at stopped
        · cases stopped
          exact .inl ⟨_, rfl⟩
        · cases stopped

end FileQuery
