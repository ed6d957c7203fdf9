import FileQuery.Execution.Statement
import FileQuery.Proofs.Execution.Folder
import FileQuery.Proofs.Execution.Frame
import FileQuery.Proofs.Selection

/-! When statements are refused: the condition on the world that each looks for before it does or
reports anything. -/
set_option autoImplicit false
namespace FileQuery

theorem listFolder_of_not_isFolder {s : Store} {folder : String}
    (missing : s.isFolder folder = false) (kind : Option Kind) :
    listFolder s folder kind = .error { fault := .command (.pathNotFound folder none) } := by
  unfold Store.isFolder at missing
  rw [listFolder, Store.namesAt]
  rcases ends : s.stat true folder with f | ⟨place, entry⟩ <;> rw [ends] at missing
  · rfl
  · cases entry with
    | folder mode => cases missing
    | file bytes mode modified => rfl
    | link target => rfl

theorem exists_namesAt {s : Store} {folder : String} (isFolder : s.isFolder folder = true) :
    ∃ names, s.namesAt folder = .ok names := by
  obtain ⟨place, mode, ends⟩ := Store.of_isFolder isFolder
  rw [Store.namesAt, ends]
  exact ⟨_, rfl⟩

/-- The folder that a statement about many entries is about. -/
def Source.path (source : Source) (session : Session) : String :=
  match source.folder with
  | some folder => if folder.isEmpty then session.folder else session.resolve [folder]
  | none => session.folder

/-- Whether an order names a field that records do not have. -/
def SortSpec.Unknown (order : Option SortSpec) : Prop :=
  ∃ spec, order = some spec ∧ Field.ofName? spec.field = none

theorem select_of_unknown {order : Option SortSpec} (unknown : SortSpec.Unknown order)
    (contents : Where.Contents) (clause : Option String) (records : List Record) :
    ∃ e, select contents clause order records = .error e := by
  obtain ⟨spec, rfl, field⟩ := unknown
  rw [select_some, SortSpec.resolve, field]
  exact ⟨_, rfl⟩

theorem select_of_known {order : Option SortSpec} (known : ¬ SortSpec.Unknown order)
    (contents : Where.Contents) (clause : Option String) (records : List Record) :
    ∃ kept errors, select contents clause order records = .ok (kept, errors) := by
  cases order with
  | none => exact ⟨_, _, select_none contents clause records⟩
  | some spec =>
      rw [select_some, SortSpec.resolve]
      cases field : Field.ofName? spec.field with
      | none => exact absurd ⟨spec, rfl, field⟩ known
      | some f => exact ⟨_, _, rfl⟩

namespace Action

/-- The work for one of the entries that the wildcard stands for. -/
def targetTurn (kind : Kind) (work : String → Action Unit) (record : Record) : Action Unit :=
  guardItem Store.Fault.isReadable
    (fun cause => emit .error (kind.label ++ " \"" ++ record.name ++ "\": " ++ cause) (some record.name))
    (work record.name)

theorem forTargets_wildcard (kind : Kind) (work : String → Action Unit) :
    forTargets kind wildcard work = (do
      let records ← listing (← get).session.folder (some kind)
      if records.isEmpty then emit .info ("No " ++ kind.noun ++ "s in the current folder.")
      records.forM (targetTurn kind work)) := by
  rw [forTargets, if_neg (by simp)]
  rfl

theorem sourceRecords_of_missing {source : Source} {r : Run}
    (missing : r.store.isFolder (source.path r.session) = false) (kind : Kind) :
    ∃ e, (sourceRecords kind source).on r = (.error (.command e), r) := by
  have listed := on_listing (r := r) (source.path r.session) (some kind)
  simp only [listFolder_of_not_isFolder missing, List.append_nil] at listed
  rw [Source.path] at missing listed
  unfold sourceRecords
  rcases source with ⟨_ | folder, clause⟩
  · exact ⟨_, listed⟩
  · dsimp only at missing listed ⊢
    split
    · next empty =>
        rw [if_pos empty] at listed
        exact ⟨_, listed⟩
    · next named =>
        rw [if_neg named] at missing
        refine ⟨.pathNotFound folder none, ?_⟩
        simp only [on_bind, on_resolve, on_get, missing, Bool.false_eq_true, if_false, on_refuse]

theorem on_sourceRecords_of_isFolder {source : Source} {r : Run}
    (found : r.store.isFolder (source.path r.session) = true) (kind : Kind) :
    (sourceRecords kind source).on r = (listing (source.path r.session) (some kind)).on r := by
  rw [Source.path] at found ⊢
  unfold sourceRecords
  rcases source with ⟨_ | folder, clause⟩
  · rfl
  · dsimp only at found ⊢
    split
    · rfl
    · next named =>
        rw [if_neg named] at found
        simp only [on_bind, on_resolve, on_get, found, if_true]

variable {σ : Type} {see : Run → σ}

theorem plain_style {settings : Settings} (calm : ∀ e, settings.style ≠ .error (.command e)) :
    Plain see (match settings.style with
      | .ok style => pure style
      | .error f => throw f : Action Report.Style) := by
  cases found : settings.style with
  | ok style => exact plain_pure style
  | error f => exact plain_throw fun e same => calm e (by rw [found, same])

section
variable (blind : Run.Blind see)
include blind

theorem plain_emit (level : Level) (message : String) (item : Option String) :
    Plain see (emit level message item) :=
  .of_ok (fun _ => on_emit level message item) fun r => blind.reported r level message item

theorem plain_change (c : Store.Change) : Plain see (change c) := by
  intro r
  rw [on_change]
  refine ⟨blind.store r _, fun e same => ?_⟩
  rcases done : c r.store with ⟨f | _, s⟩ <;> simp [done] at same

theorem plain_missing (kind : Kind) (name : String) : Plain see (missing kind name) :=
  plain_emit blind _ _ _

/-! Statements about named entries. -/

theorem plain_create (kind : Kind) (name : String) (settings : Settings) :
    Plain see (create kind name settings) := by
  refine (plain_resolve _).bind fun path => (plain_present _ _).bind fun held => ?_
  split
  · exact plain_emit blind _ _ _
  · cases kind with
    | folder => exact (plain_change blind _).bind fun _ => plain_emit blind _ _ _
    | file => exact (plain_change blind _).bind fun _ => plain_emit blind _ _ _

theorem plain_writeFile (name content : String) (settings : Settings) :
    Plain see (writeFile name content settings) := by
  rw [writeFile]
  cases Text.decodeEscapes content.toList with
  | ok points =>
      exact (plain_pure points).bind fun _ => (plain_resolve _).bind fun _ =>
        (plain_change blind _).bind fun _ => plain_emit blind _ _ _
  | error e =>
      exact (plain_emit blind _ _ _).bind fun _ => (plain_pure _).bind fun _ =>
        (plain_resolve _).bind fun _ => (plain_change blind _).bind fun _ => plain_emit blind _ _ _

theorem plain_appendFile (name content : String) (settings : Settings) :
    Plain see (appendFile name content settings) :=
  (plain_resolve _).bind fun _ => (plain_change blind _).bind fun _ => plain_emit blind _ _ _

theorem plain_rename (kind : Kind) (old new : String) : Plain see (rename kind old new) := by
  refine (plain_resolve _).bind fun source => (plain_present _ _).bind fun held => ?_
  split
  · exact (plain_resolve _).bind fun _ => (plain_change blind _).bind fun _ => plain_emit blind _ _ _
  · exact plain_emit blind _ _ _

theorem plain_chmod (name mode : String) : Plain see (chmod name mode) := by
  refine (plain_resolve _).bind fun path => (plain_present _ _).bind fun held => ?_
  split
  · exact (plain_change blind _).bind fun _ => plain_emit blind _ _ _
  · exact plain_emit blind _ _ _

theorem plain_mergePart (settings : Settings) (name : String) :
    Plain see (mergePart settings name) := by
  refine (plain_resolve _).bind fun path => (plain_present _ _).bind fun held => ?_
  split
  · refine ((plain_look _).bind fun _ => plain_pure _).tryCatch fun f other => ?_
    cases f with
    | store e =>
        simp only
        split
        · exact (plain_emit blind _ _ _).bind fun _ => plain_pure _
        · exact plain_throw other
    | _ => exact plain_throw other
  · exact (plain_emit blind _ _ _).bind fun _ => plain_pure _

theorem plain_merge (sources : List String) (destination : String) (settings : Settings) :
    Plain see (merge sources destination settings) :=
  (Plain.mapM (plain_mergePart blind settings) sources).bind fun _ => (plain_resolve _).bind fun _ =>
    (plain_change blind _).bind fun _ => plain_emit blind _ _ _

omit blind in
theorem plain_guardItem {concerns : Store.Fault → Bool} {report : String → Action Unit}
    {work : Action Unit} (reports : ∀ message, Plain see (report message)) (body : Plain see work) :
    Plain see (guardItem concerns report work) := by
  refine body.tryCatch fun f other => ?_
  cases f with
  | store e =>
      simp only
      split
      · exact reports _
      · exact plain_throw other
  | _ => exact plain_throw other

theorem guarded_listing_of_isFolder {β : Type} {P : Prop} {k : List Record → Action β} {folder : String}
    {r : Run} (found : r.store.isFolder folder = true)
    (rest : ∀ records r', Guarded see P (k records) r') (kind : Option Kind) :
    Guarded see P (listing folder kind >>= k) r := by
  have ran := on_listing (r := r) folder kind
  have whole := listed r.store folder kind
  generalize listFolder r.store folder kind = outcome at ran whole
  cases whole with
  | missing refused =>
      obtain ⟨names, named⟩ := exists_namesAt found
      rw [refused] at named
      cases named
  | @halted f notes unlistable stray =>
      refine .of_stray (f := .store f) ?_ stray (blind.log r (r.log ++ notes))
      rw [on_bind, ran]
  | done named dated => exact .after blind ran (rest _ _)

theorem guarded_listing {β : Type} {k : List Record → Action β}
    (rest : ∀ records, Plain see (k records)) (folder : String) (kind : Option Kind) (r : Run) :
    Guarded see (r.store.isFolder folder = false) (listing folder kind >>= k) r := by
  cases found : r.store.isFolder folder with
  | false =>
      have listed := on_listing (r := r) folder kind
      simp only [listFolder_of_not_isFolder found, List.append_nil] at listed
      exact .of_refused rfl (by rw [on_bind, listed])
  | true =>
      refine (guarded_listing_of_isFolder blind found (P := False) (fun records r' => ?_) kind).congr
        (by simp)
      exact (rest records).guarded r'

theorem plain_targetTurn {kind : Kind} {work : String → Action Unit}
    (each : ∀ name, Plain see (work name)) (record : Record) :
    Plain see (targetTurn kind work record) :=
  plain_guardItem (fun _ => plain_emit blind _ _ _) (each record.name)

theorem guarded_forTargets {work : String → Action Unit} (each : ∀ name, Plain see (work name))
    (kind : Kind) (name : String) (r : Run) :
    Guarded see (name = wildcard ∧ r.store.isFolder r.session.folder = false)
      (forTargets kind name work) r := by
  by_cases star : name = wildcard
  · subst star
    rw [forTargets_wildcard]
    refine (Guarded.next on_get
      (guarded_listing blind (fun records => ?_) r.session.folder (some kind) r)).congr (by simp)
    have turns : Plain see (records.forM (targetTurn kind work)) :=
      Plain.forM (plain_targetTurn blind each) records
    dsimp only
    split
    · exact (plain_emit blind _ _ _).bind fun _ => turns
    · exact turns
  · rw [forTargets, if_pos star]
    exact ((each name).guarded r).congr (by simp [star])

theorem guarded_readFile (name : String) (settings : Settings) (r : Run) :
    Guarded see (name = wildcard ∧ r.store.isFolder r.session.folder = false)
      (readFile name settings) r := by
  refine guarded_forTargets blind (fun name => ?_) .file name r
  refine (plain_resolve _).bind fun path => (plain_present _ _).bind fun held => ?_
  split
  · exact (plain_look _).bind fun _ => plain_emit blind _ _ _
  · exact plain_missing blind _ _

theorem guarded_delete (kind : Kind) (name : String) (r : Run) :
    Guarded see (name = wildcard ∧ r.store.isFolder r.session.folder = false)
      (delete kind name) r := by
  refine guarded_forTargets blind (fun name => ?_) kind name r
  refine (plain_resolve _).bind fun path => (plain_present _ _).bind fun held => ?_
  split
  · cases kind with
    | folder => exact (plain_change blind _).bind fun _ => plain_emit blind _ _ _
    | file => exact (plain_change blind _).bind fun _ => plain_emit blind _ _ _
  · exact plain_missing blind _ _

theorem guarded_transfer (mode : Transfer) (kind : Kind) (name target : String) (r : Run) :
    Guarded see (name = wildcard ∧ r.store.isFolder r.session.folder = false)
      (transfer mode kind name target) r := by
  refine guarded_forTargets blind (fun name => ?_) kind name r
  refine (plain_resolve _).bind fun path => (plain_present _ _).bind fun held => ?_
  split
  · exact (plain_resolve _).bind fun _ => (plain_change blind _).bind fun _ => plain_emit blind _ _ _
  · exact plain_missing blind _ _

theorem guarded_editFile (name : String) (settings : Settings) (r : Run) :
    Guarded see (r.editor = none) (editFile name settings) r := by
  rw [editFile]
  cases present : r.editor with
  | none =>
      refine Guarded.next on_get ?_
      rw [present]
      exact (guarded_refuse _).congr (by simp)
  | some editor =>
      refine Guarded.next on_get ?_
      simp only [present, reduceCtorEq]
      refine Plain.guarded ((plain_resolve _).bind fun path => ?_) r
      rcases Editor.edit settings.encoding path r.input { editor, store := r.store } with
        ⟨done, step, input⟩
      refine (plain_modify fun r' => blind.edited r' _ _ _ _ _).bind fun _ => ?_
      cases done with
      | error f => exact plain_throw (by simp)
      | ok _ =>
          simp only
          split
          · exact plain_emit blind _ _ _
          · exact plain_emit blind _ _ _

/-! Statements about all entries of a folder. -/

theorem guarded_list (kind : Option Kind) (r : Run) :
    Guarded see (r.store.isFolder r.session.folder = false) (list kind) r := by
  unfold list
  refine Guarded.next on_get (guarded_listing blind (fun records => ?_) _ kind r)
  dsimp only
  split
  · exact (plain_emit blind _ _ _).bind fun _ => plain_modify fun r' => blind.records r' _
  · exact (plain_emit blind _ _ _).bind fun _ => plain_modify fun r' => blind.records r' _

theorem guarded_count (kind : Option Kind) (r : Run) :
    Guarded see (r.store.isFolder r.session.folder = false) (count kind) r := by
  unfold count
  exact Guarded.next on_get (guarded_listing blind (fun records => plain_emit blind _ _ _) _ kind r)

theorem plain_warnings (matcher : Matcher) (errors : List Where.ConditionError) :
    Plain see (errors.forM fun e => emit .warning (e.message matcher)) :=
  Plain.forM (fun _ => plain_emit blind _ _ _) errors

theorem guarded_selected {settings : Settings} {source : Source} {order : Option SortSpec}
    {work : List Record → Action Unit} (rest : ∀ kept, Plain see (work kept))
    (records : List Record) (r : Run) :
    Guarded see (SortSpec.Unknown order)
      (selected settings source order records >>= work) r := by
  rw [selected, bind_assoc]
  refine Guarded.next on_get ?_
  by_cases unknown : SortSpec.Unknown order
  · obtain ⟨e, refused⟩ := select_of_unknown unknown (contents settings r.store) source.clause records
    rw [refused]
    exact ((guarded_refuse _).bind rest).congr (by simp [unknown])
  · obtain ⟨kept, errors, done⟩ :=
      select_of_known unknown (contents settings r.store) source.clause records
    rw [done]
    have goes := ((plain_warnings blind settings.matcher errors).bind fun _ => plain_pure kept).bind rest
    exact (goes.guarded r).congr (by simp [unknown])

/-- The folder is looked for first, then the order is read, and only then is any condition. -/
theorem guarded_kept {kind : Kind} {settings : Settings} {source : Source}
    {order : Option SortSpec} {work : List Record → Action Unit}
    (rest : ∀ kept, Plain see (work kept)) (r : Run) :
    Guarded see (r.store.isFolder (source.path r.session) = false ∨ SortSpec.Unknown order)
      (sourceRecords kind source >>= fun records => selected settings source order records >>= work)
      r := by
  cases found : r.store.isFolder (source.path r.session) with
  | false =>
      obtain ⟨e, refused⟩ := sourceRecords_of_missing found kind
      exact .of_refused (.inl rfl) (by rw [on_bind, refused])
  | true =>
      have chosen (records : List Record) (r' : Run) : Guarded see (SortSpec.Unknown order)
          (selected settings source order records >>= work) r' :=
        guarded_selected blind rest records r'
      have begun := guarded_listing_of_isFolder blind found chosen (some kind)
      refine (begun.congr (by simp)).of_on_eq ?_
      rw [on_bind, on_bind, on_sourceRecords_of_isFolder found]

theorem plain_recordTurn {report : Record → String → String} {done work : Record → Action Unit}
    (reports : ∀ record, Plain see (done record)) (each : ∀ record, Plain see (work record))
    (record : Record) : Plain see (recordTurn report done work record) := by
  refine Plain.bind (((each record).bind fun _ => plain_pure _).tryCatch fun f other => ?_)
    fun failed => ?_
  · cases f with
    | store e =>
        simp only
        split
        · exact plain_pure _
        · exact plain_throw other
    | _ => exact plain_throw other
  · cases failed with
    | some cause => exact plain_emit blind _ _ _
    | none => exact reports record

theorem guarded_deleteAll (kind : Kind) (source : Source) (settings : Settings) (r : Run) :
    Guarded see (r.store.isFolder (source.path r.session) = false)
      (deleteAll kind source settings) r := by
  refine (guarded_kept blind (fun kept => ?_) r).congr (Q := _) (by simp [SortSpec.Unknown])
  rw [forRecords_eq]
  exact Plain.forM (plain_recordTurn blind (fun _ => plain_emit blind _ _ _)
    fun _ => plain_change blind _) kept

theorem guarded_transferAll (mode : Transfer) (kind : Kind) (target : String) (source : Source)
    (settings : Settings) (r : Run) :
    Guarded see (r.store.isFolder (source.path r.session) = false)
      (transferAll mode kind target source settings) r := by
  refine (guarded_kept blind (fun kept => ?_) r).congr (Q := _) (by simp [SortSpec.Unknown])
  rw [forRecords_eq]
  exact Plain.forM (plain_recordTurn blind (fun _ => plain_emit blind _ _ _)
    fun _ => (plain_resolve _).bind fun _ => plain_change blind _) kept

theorem guarded_selectRecords {settings : Settings} (calm : ∀ e, settings.style ≠ .error (.command e))
    (kind : Kind) (source : Source) (order : Option SortSpec) (into : Option String) (r : Run) :
    Guarded see (r.store.isFolder (source.path r.session) = false ∨ SortSpec.Unknown order)
      (selectRecords kind source order into settings) r := by
  refine guarded_kept blind (fun kept => ?_) r
  cases into with
  | none => exact (plain_modify fun r' => blind.records r' _).bind fun _ => plain_emit blind _ _ _
  | some path =>
      refine (plain_style calm).bind fun style => ?_
      cases Report.render style path kept with
      | error cause => exact plain_throw (by simp)
      | ok text =>
          exact (plain_resolve _).bind fun _ => plain_get.bind fun _ => (plain_change blind _).bind
            fun _ => plain_emit blind _ _ _

end

/-! Statements about the session. -/

theorem plain_moved (session : Session) (message : String) :
    Plain Run.children (do
      modify fun r => { r with session }
      emit .info message : Action Unit) := by
  refine Plain.bind ?_ fun _ => plain_emit Run.blind_children _ _ _
  exact plain_modify fun _ => rfl

theorem guarded_use (folder : String) (r : Run) :
    Guarded Run.children (r.store.isFolder (r.session.resolve [folder]) = false) (use folder) r := by
  rw [use]
  refine Guarded.next on_get ?_
  cases found : r.store.isFolder (r.session.resolve [folder]) with
  | false =>
      have refused : r.session.use r.store folder = .error (.noFolder folder) := by
        simp only [Session.use, found, Bool.false_eq_true, if_false]
      rw [refused]
      exact (guarded_refuse _).congr (by simp)
  | true =>
      have moved : r.session.use r.store folder = .ok ⟨r.session.resolve [folder]⟩ := by
        simp only [Session.use, found, if_true]
      rw [moved]
      exact ((plain_moved _ _).guarded r).congr (by simp)

theorem guarded_drop (r : Run) :
    Guarded Run.children
      (String.ofList (Path.parent r.session.folder.toList) = r.session.folder) drop r := by
  rw [drop]
  refine Guarded.next on_get ?_
  by_cases top : String.ofList (Path.parent r.session.folder.toList) = r.session.folder
  · have refused : r.session.drop = .error (.atRoot r.session.folder) := by
      simp only [Session.drop, top, if_true]
    rw [refused]
    exact (guarded_refuse _).congr (by simp [top])
  · have moved : r.session.drop = .ok ⟨String.ofList (Path.parent r.session.folder.toList)⟩ := by
      simp only [Session.drop, top, if_false]
    rw [moved]
    exact ((plain_moved _ _).guarded r).congr (by simp [top])

theorem Guarded.blank {α : Type} {P : Prop} {a : Action α} {r : Run} (guarded : Guarded see P a r) :
    Guarded (fun _ => ()) P a r :=
  ⟨rfl, guarded.refused, guarded.goes⟩

end Action

end FileQuery
