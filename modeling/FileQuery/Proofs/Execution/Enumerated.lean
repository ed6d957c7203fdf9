import FileQuery.Proofs.Execution.Batch
import FileQuery.Proofs.Execution.Proper
import FileQuery.Proofs.Instant.Stamp
import FileQuery.Proofs.Store.Orderly
import FileQuery.Proofs.Text.Lower

/-! # What a folder lists

The records of a folder are well formed whatever its entries are called: there is one for each entry
that leads to a file or a folder, in the order of their names (`Store.Orderly.enumerated`). The statements
that count, list and select look into the folder each on its own, and tell of the same records
(`listings_agree`). A time that is no date stops them all. -/
set_option autoImplicit false
namespace FileQuery

variable {s : Store} {folder : String} {place : Place} {r : Record} {records : List Record}
  {notes : List LogEntry}

/-! ## Records -/

/-- What the record of an entry in a folder is like, as conditions, orders and reports take it. -/
structure Record.Formed (r : Record) (folder : String) : Prop where
  path : r.path = Store.joinName folder r.name
  name : Path.baseName r.path.toList = r.name.toList
  folder : r.kind = .folder → r.size = 0 ∧ r.extension = ""
  extension : r.kind = .file → normalizeExtension r.extension.toList = r.extension.toList ∧
    (r.extension = "" ∨ r.extension.toList.head? = some '.')
  permissions : 0 ≤ r.permissions ∧ r.permissions ≤ 0o777
  modified : r.modified.Dated
  created : r.created.Dated

theorem formed_of_recordAt {name : String} (clean : Path.Clean name.toList)
    (found : recordAt s (Store.joinName folder name) = .ok r) : r.Formed folder := by
  have named : r.name = name := name_of_recordAt clean found
  obtain ⟨_, _, kind, status, _, _, made⟩ := of_recordAt_eq_ok found
  obtain ⟨modified, created, changed, born, rfl⟩ := of_ofStat made
  refine ⟨by rw [named]; rfl, String.toList_ofList.symm, ?_, ?_, ?_,
    Instant.dated_of_ofDecimalSeconds changed, Instant.dated_of_ofDecimalSeconds born⟩
  · intro isFolder
    obtain rfl : kind = .folder := isFolder
    exact ⟨rfl, rfl⟩
  · intro isFile
    obtain rfl : kind = .file := isFile
    simp only [Record.ofEntry, reduceCtorEq, if_false, String.toList_ofList]
    refine ⟨normalizeExtension_normalizeExtension _, ?_⟩
    have starts := normalizeExtension_starts
      (Path.extension (Path.baseName (Store.joinName folder name).toList))
    exact starts.imp_left fun empty => by rw [empty]
  · simp only [Record.ofEntry, permissionBits]
    omega

/-- Why there is no record with the times of an entry: the first of them that is no date. -/
inductive Stat.Undated (status : Stat) (e : Instant.StampError) : Prop
  | modified (bad : status.modified.instant = .error e)
  | created {i : Instant} (good : status.modified.instant = .ok i)
      (bad : (status.born.getD status.changed).instant = .error e)

theorem ofStat_eq_error_iff {path : String} {kind : Kind} {status : Stat} {e : Instant.StampError} :
    Record.ofStat path kind status = .error e ↔ status.Undated e := by
  constructor
  · intro stopped
    rw [Record.ofStat] at stopped
    cases modified : status.modified.instant with
    | error e' =>
        rw [modified] at stopped
        cases stopped
        exact .modified modified
    | ok i =>
        rw [modified] at stopped
        cases created : (status.born.getD status.changed).instant with
        | error e' =>
            rw [created] at stopped
            cases stopped
            exact .created modified created
        | ok j =>
            rw [created] at stopped
            cases stopped
  · rintro (bad | ⟨good, bad⟩)
    · rw [Record.ofStat, bad]
      rfl
    · rw [Record.ofStat, good, bad]
      rfl

/-- A name stops a listing if a time of what it leads to is no date, though one that the system knows. -/
theorem Store.dateless_iff {name : String} (plain : hasNul (joinName folder name) = false) :
    s.Dateless folder name ↔ ∃ place e kind status why,
      s.stat true (joinName folder name) = .ok (place, e) ∧ s.status? place e = some (kind, status) ∧
        status.Undated why ∧ why ≠ .beyondYears := by
  constructor
  · rintro ⟨f, stopped, stray⟩
    rcases ends : s.stat true (joinName folder name) with g | ⟨place, e⟩
    · have refusal := refusable_stat plain s true g ends
      rw [recordAt, ends] at stopped
      cases stopped
      rw [refusal] at stray
      cases stray
    · cases told : s.status? place e with
      | none =>
          rw [recordAt, ends] at stopped
          simp only [bind, Except.bind, told] at stopped
          cases stopped
          cases stray
      | some both =>
          obtain ⟨kind, status⟩ := both
          rw [recordAt_of_status ends told] at stopped
          cases made : Record.ofStat (joinName folder name) kind status with
          | ok r =>
              rw [made] at stopped
              cases stopped
          | error why =>
              rw [made] at stopped
              cases stopped
              refine ⟨place, e, kind, status, why, rfl, told, ofStat_eq_error_iff.mp made, ?_⟩
              rintro rfl
              cases stray
  · rintro ⟨place, e, kind, status, why, ends, told, undated, known⟩
    refine ⟨.ofStamp why, ?_, ?_⟩
    · rw [recordAt_of_status ends told, ofStat_eq_error_iff.mpr undated]
      rfl
    · cases why with
      | beyondYears => exact absurd rfl known
      | beyondClock => rfl
      | yearOutOfRange year => rfl

/-! ## Listings -/

/-- The records of a folder: well-formed ones that the entries lead to, in the order of their names,
and one for every name that leads to a file or a folder, but for those with a time beyond the years that
the system knows. -/
structure Enumerated (s : Store) (folder : String) (records : List Record) : Prop where
  ordered : records.Pairwise fun a b =>
    Text.CodePoints.ofString a.name < Text.CodePoints.ofString b.name
  formed : ∀ r ∈ records, r.Formed folder
  leads : ∀ r ∈ records, Path.Clean r.name.toList ∧ s.holds r.path (some r.kind) = true
  complete : ∀ (name : String) (kind : Kind), Path.Clean name.toList →
    s.holds (Store.joinName folder name) (some kind) = true →
      (∃ r ∈ records, r.name = name ∧ r.kind = kind) ∨
        recordAt s (Store.joinName folder name) = .error (.os .valueTooLarge)

theorem sublist_recordsAt {names : List String} (clean : ∀ name ∈ names, Path.Clean name.toList) :
    ((recordsAt s folder names).map Record.name).Sublist names := by
  induction names with
  | nil => exact .slnil
  | cons name rest ih =>
      rw [List.forall_mem_cons] at clean
      rw [recordsAt, List.filterMap_cons]
      cases found : recordAt s (Store.joinName folder name) with
      | ok own =>
          rw [← name_of_recordAt clean.1 found]
          exact (ih clean.2).cons_cons own.name
      | error f => exact (ih clean.2).cons name

theorem Store.Orderly.enumerated (orderly : s.Orderly) {mode : Nat}
    (ends : s.stat true folder = .ok (place, .folder mode))
    (dated : ∀ name ∈ s.names place, ¬ s.Dateless folder name) :
    Enumerated s folder (recordsAt s folder (s.names place)) := by
  have clean : ∀ name ∈ s.names place, Path.Clean name.toList := by
    intro name listed
    obtain ⟨e, there⟩ := Store.mem_names.mp listed
    exact orderly.named _ _ _ there
  refine ⟨?_, ?_, ?_, ?_⟩
  · have kept : ((recordsAt s folder (s.names place)).map Record.name).Sublist (s.names place) :=
      sublist_recordsAt clean
    have ordered := (orderly.distinct.pairwise_names place).sublist kept
    rwa [List.pairwise_map] at ordered
  · intro r member
    obtain ⟨name, listed, found⟩ := mem_recordsAt.mp member
    exact formed_of_recordAt (clean name listed) found
  · intro r member
    obtain ⟨name, listed, found⟩ := mem_recordsAt.mp member
    obtain ⟨path, _, held⟩ := of_recordAt found
    rw [name_of_recordAt (clean name listed) found, path]
    exact ⟨clean name listed, held⟩
  · intro name kind own held
    obtain ⟨place', e, status, followed, told⟩ := exists_status held
    obtain ⟨e', there, _⟩ := Store.stat_joinName ends own followed
    have listed : name ∈ s.names place := Store.mem_names.mpr ⟨e', there⟩
    have looked := recordAt_of_status followed told
    cases made : Record.ofStat (Store.joinName folder name) kind status with
    | ok r =>
        rw [made] at looked
        obtain ⟨_, _, _, _, rfl⟩ := of_ofStat made
        exact .inl ⟨_, mem_recordsAt.mpr ⟨name, listed, looked⟩, name_of_recordAt own looked, rfl⟩
    | error why =>
        rw [made] at looked
        cases why with
        | beyondYears => exact .inr looked
        | beyondClock => exact absurd ⟨_, looked, rfl⟩ (dated name listed)
        | yearOutOfRange year => exact absurd ⟨_, looked, rfl⟩ (dated name listed)

/-- A folder is listed unless a name in it stops the listing, and then for every kind alike. -/
theorem listFolder_of_dated {mode : Nat} (ends : s.stat true folder = .ok (place, .folder mode))
    (dated : ∀ name ∈ s.names place, ¬ s.Dateless folder name) (kind : Option Kind) :
    listFolder s folder kind = .ok (Record.ofKind kind (recordsAt s folder (s.names place)),
      skippedAt s folder (s.names place)) := by
  have named : s.namesAt folder = .ok (s.names place) := by
    rw [Store.namesAt, ends]
    rfl
  rw [listFolder, named]
  dsimp only
  rw [recordsOf_eq_ok dated]
  dsimp only [Except.map]
  rw [Record.filter_kind]

theorem listFolder_of_unlistable (unlistable : s.Unlistable folder) :
    ∃ f notes, f.isReadable = false ∧
      ∀ kind, listFolder s folder kind = .error { fault := .store f, notes } := by
  obtain ⟨names, named, halts⟩ := unlistable
  obtain ⟨f, notes, stopped, stray⟩ := recordsOf_eq_error halts
  refine ⟨f, notes, stray, fun kind => ?_⟩
  rw [listFolder, named]
  dsimp only
  rw [stopped]
  rfl

theorem length_ofKind (records : List Record) : records.length =
    (Record.ofKind (some .file) records).length + (Record.ofKind (some .folder) records).length := by
  rw [List.length_eq_length_filter_add fun r : Record => decide (r.kind = .file)]
  have other (r : Record) : (!decide (r.kind = .file)) = decide (r.kind = .folder) := by
    cases r.kind <;> rfl
  simp only [other, Record.ofKind]

/-! ## Statements -/

def countMessage (kind : Option Kind) (n : Nat) : String :=
  (match kind with
    | some k => k.label ++ "s"
    | none => "All entries") ++ s!": {n}"

def listMessage (kind : Option Kind) (n : Nat) : String :=
  if n = 0 then
    "No " ++ (match kind with
      | some k => k.noun ++ "s"
      | none => "files or folders") ++ " in the folder."
  else s!"Listed {n} entries."

def selectMessage (n : Nat) : String := s!"Query matched {n} entries."

/-- Looks into the folder at hand, and asks for all that is there. -/
structure Source.Whole (source : Source) (session : Session) (s : Store) : Prop where
  here : source.folderIn? session s = some session.folder
  all : ∀ text, source.clause = some text → text = ""

/-- What a statement gives that looks into a folder and then says one thing: it may show records, and
nothing else is changed than the log. -/
def Statement.told (st : Statement) (w : World) (notes : List LogEntry) (message : String)
    (shown : Option (List Record)) : Ran :=
  (.ok { statement := st, events := [{ level := .info, message }], records := shown },
    { w with log := w.log ++ notes ++ [{ level := .ofEvent .info, message }] })

section
variable (settings : Settings) (execute? : Option (String → World → Ran)) {kind : Option Kind} {w : World}

theorem Statement.run_count (listed : listFolder w.store w.session.folder kind = .ok (records, notes)) :
    run settings execute? (.count kind) w =
      told (.count kind) w notes (countMessage kind records.length) none := by
  have done : (Action.perform settings execute? (.count kind)).on { toWorld := w } =
      (.ok (), Run.reported { toWorld := { w with log := w.log ++ notes } } .info
        (countMessage kind records.length) none) := by
    unfold Action.perform Action.count
    rw [Action.on_listingHere, listed]
    rfl
  rw [run_of_ok done]
  rfl

theorem Statement.run_list (listed : listFolder w.store w.session.folder kind = .ok (records, notes)) :
    run settings execute? (.list kind) w =
      told (.list kind) w notes (listMessage kind records.length) (some records) := by
  have done : (Action.perform settings execute? (.list kind)).on { toWorld := w } =
      (.ok (), { Run.reported { toWorld := { w with log := w.log ++ notes } } .info
        (listMessage kind records.length) none with records := some records }) := by
    unfold Action.perform Action.list
    rw [Action.on_listingHere, listed]
    cases records with
    | nil => rfl
    | cons r rest => rfl
  rw [run_of_ok done]
  rfl

/-- A query for all that is in the folder at hand keeps each record, and is refused just for its
order. -/
theorem Source.Whole.selection {source : Source} {session : Session} {kind : Kind}
    (whole : source.Whole session s) {order : Option SortSpec} (known : ¬ SortSpec.Unknown order)
    (listed : listFolder s session.folder (some kind) = .ok (records, notes)) :
    ∃ shown, shown.Perm records ∧ (order = none → shown = records) ∧
      source.selection settings session s kind order = .ok ((shown, []), notes) := by
  have all (contents : Where.Contents) : Where.reported contents source.clause records = (records, []) :=
    Where.reported_of_empty whole.all records
  cases order with
  | none =>
      refine ⟨records, .refl records, fun _ => rfl, ?_⟩
      rw [Source.selection, whole.here]
      simp only [listed, select_none, all]
  | some spec =>
      cases field : Field.ofName? spec.field with
      | none => exact absurd ⟨spec, rfl, field⟩ known
      | some f =>
          have resolved : spec.resolve = .ok f := by rw [SortSpec.resolve, field]
          have perm : (sortRecords spec.direction f records).Perm records := List.mergeSort_perm records _
          refine ⟨_, perm, (fun given => by cases given), ?_⟩
          rw [Source.selection, whole.here]
          simp only [listed, select_some, all, resolved]

theorem Statement.run_select_whole {kind : Kind} {source : Source} {order : Option SortSpec}
    (whole : source.Whole w.session w.store) (known : ¬ SortSpec.Unknown order)
    (listed : listFolder w.store w.session.folder (some kind) = .ok (records, notes)) :
    ∃ shown, shown.Perm records ∧ (order = none → shown = records) ∧
      run settings execute? (.select kind source order none) w =
        told (.select kind source order none) w notes (selectMessage records.length) (some shown) := by
  obtain ⟨shown, perm, same, selected⟩ := whole.selection settings known listed
  refine ⟨shown, perm, same, ?_⟩
  have done : (Action.perform settings execute? (.select kind source order none)).on { toWorld := w } =
      (.ok (), Run.reported { toWorld := { w with log := w.log ++ notes }, records := some shown }
        .info (selectMessage records.length) none) := by
    have performs : Action.perform settings execute? (.select kind source order none) =
        Action.selectRecords kind source order none settings := rfl
    have begun := Action.on_selection (r := { toWorld := w }) selected
    rw [performs, Action.selectRecords, ← bind_assoc, Action.on_bind, begun, ← perm.length_eq]
    rfl
  rw [run_of_ok done]
  rfl

/-- The statements that count, list and select what is in the folder at hand all tell of the same records:
for one kind they say the same number, what is listed and what is selected are those of the kind, and
the count of all is that of the files and that of the folders together. -/
structure World.TellsOf (w : World) (all : List Record) (notes : List LogEntry) : Prop where
  sum : all.length = (Record.ofKind (some .file) all).length + (Record.ofKind (some .folder) all).length
  counts : ∀ kind, Statement.run settings execute? (.count kind) w =
    (Statement.count kind).told w notes (countMessage kind (Record.ofKind kind all).length) none
  lists : ∀ kind, Statement.run settings execute? (.list kind) w =
    (Statement.list kind).told w notes (listMessage kind (Record.ofKind kind all).length)
      (some (Record.ofKind kind all))
  selects : ∀ kind source order, source.Whole w.session w.store → ¬ SortSpec.Unknown order →
    ∃ shown, shown.Perm (Record.ofKind (some kind) all) ∧
      (order = none → shown = Record.ofKind (some kind) all) ∧
      Statement.run settings execute? (.select kind source order none) w =
        (Statement.select kind source order none).told w notes
          (selectMessage (Record.ofKind (some kind) all).length) (some shown)

theorem World.tellsOf {all : List Record} {notes : List LogEntry}
    (listed : ∀ kind, listFolder w.store w.session.folder kind = .ok (Record.ofKind kind all, notes)) :
    w.TellsOf settings execute? all notes where
  sum := length_ofKind all
  counts kind := Statement.run_count settings execute? (listed kind)
  lists kind := Statement.run_list settings execute? (listed kind)
  selects kind _ _ whole known := Statement.run_select_whole settings execute? whole known (listed (some kind))

/-- They give no outcome, but leave one fault alike. -/
structure World.StopsAt (w : World) (f : Store.Fault) (notes : List LogEntry) : Prop where
  counts : ∀ kind, Statement.run settings execute? (.count kind) w =
    (.error (.store f), { w with log := w.log ++ notes })
  lists : ∀ kind, Statement.run settings execute? (.list kind) w =
    (.error (.store f), { w with log := w.log ++ notes })
  selects : ∀ kind source order, source.Whole w.session w.store →
    Statement.run settings execute? (.select kind source order none) w =
      (.error (.store f), { w with log := w.log ++ notes })

theorem World.stopsAt {f : Store.Fault} {notes : List LogEntry} (stray : f.isReadable = false)
    (stopped : ∀ kind, listFolder w.store w.session.folder kind = .error { fault := .store f, notes }) :
    w.StopsAt settings execute? f notes := by
  have strays : (Fault.store f).Stray := stray
  constructor
  · intro kind
    have done : (Action.perform settings execute? (.count kind)).on { toWorld := w } =
        (.error (.store f), { toWorld := { w with log := w.log ++ notes } }) := by
      unfold Action.perform Action.count
      rw [Action.on_listingHere, stopped]
    rw [Statement.run_of_stray strays done]
  · intro kind
    have done : (Action.perform settings execute? (.list kind)).on { toWorld := w } =
        (.error (.store f), { toWorld := { w with log := w.log ++ notes } }) := by
      unfold Action.perform Action.list
      rw [Action.on_listingHere, stopped]
    rw [Statement.run_of_stray strays done]
  · intro kind source order whole
    have selects : source.selection settings w.session w.store kind order =
        .error { fault := .store f, notes } := by
      rw [Source.selection, whole.here]
      simp only [stopped]
    have done : (Action.perform settings execute? (.select kind source order none)).on { toWorld := w } =
        (.error (.store f), { toWorld := { w with log := w.log ++ notes } }) := by
      have performs : Action.perform settings execute? (.select kind source order none) =
          Action.selectRecords kind source order none settings := rfl
      have begun := Action.on_selection_of_stopped (r := { toWorld := w }) selects
      rw [performs, Action.selectRecords, ← bind_assoc, Action.on_bind, begun]
    rw [Statement.run_of_stray strays done]

end

theorem World.orderly_afterLines (settings : Settings) (lines : List String) {w : World}
    (orderly : w.store.Orderly) : (w.afterLines settings lines).store.Orderly :=
  upholds_afterLines Store.custody_orderly settings lines w orderly

/-- A store starts orderly, and stays so whatever lines are run. What is no folder in it lists nothing.
A folder lists well-formed records, its files and its folders being those among them, unless a time of
what one of its names leads to is no date, though one that the system knows; whole seconds are a date just
in the years 1 to 9999. Where a session is in a folder that is listed, the statements that count, list
and select what is there all tell of its records, and where it is not they all stop at one fault. -/
theorem listings_agree (settings : Settings) (execute? : Option (String → World → Ran)) :
    (∀ now, (Store.empty now).Orderly) ∧
    (∀ (w : World) (lines : List String), w.store.Orderly →
      (w.afterLines settings lines).store.Orderly) ∧
    (∀ (s : Store) (folder : String), s.Orderly →
      (s.isFolder folder = false →
        ∀ kind, listFolder s folder kind = .error { fault := .command (.pathNotFound folder none) }) ∧
      (s.isFolder folder = true →
        (s.Unlistable folder → ∃ f notes, f.isReadable = false ∧
          ∀ kind, listFolder s folder kind = .error { fault := .store f, notes }) ∧
        (¬ s.Unlistable folder → ∃ records notes, Enumerated s folder records ∧
          ∀ kind, listFolder s folder kind = .ok (Record.ofKind kind records, notes)))) ∧
    (∀ (s : Store) (folder name : String), Store.hasNul (Store.joinName folder name) = false →
      (s.Dateless folder name ↔ ∃ place e kind status why,
        s.stat true (Store.joinName folder name) = .ok (place, e) ∧
          s.status? place e = some (kind, status) ∧ status.Undated why ∧ why ≠ .beyondYears)) ∧
    (∀ i : Instant, 1000000 ∣ i.micros →
      ((Instant.Seconds.ofInstant i).instant = .ok i ↔ i.Dated)) ∧
    ∀ w : World, w.store.isFolder w.session.folder = true →
      (w.store.Unlistable w.session.folder → ∃ f notes, f.isReadable = false ∧
        w.StopsAt settings execute? f notes) ∧
      (¬ w.store.Unlistable w.session.folder → ∃ all notes,
        listFolder w.store w.session.folder none = .ok (all, notes) ∧
          w.TellsOf settings execute? all notes) := by
  have listable {s : Store} {folder : String} (found : s.isFolder folder = true)
      (dated : ¬ s.Unlistable folder) : ∃ place mode, s.stat true folder = .ok (place, .folder mode) ∧
        ∀ name ∈ s.names place, ¬ s.Dateless folder name := by
    obtain ⟨place, mode, ends⟩ := Store.of_isFolder found
    have named : s.namesAt folder = .ok (s.names place) := by
      rw [Store.namesAt, ends]
      rfl
    exact ⟨place, mode, ends, fun name member dateless => dated ⟨_, named, name, member, dateless⟩⟩
  refine ⟨Store.orderly_empty, ?_, ?_, fun _ _ _ => Store.dateless_iff,
    fun _ => Instant.instant_ofInstant_iff, ?_⟩
  · intro w lines orderly
    exact World.orderly_afterLines settings lines orderly
  · intro s folder orderly
    refine ⟨listFolder_of_not_isFolder, fun found => ⟨listFolder_of_unlistable, fun dated => ?_⟩⟩
    obtain ⟨place, mode, ends, each⟩ := listable found dated
    exact ⟨_, _, orderly.enumerated ends each, listFolder_of_dated ends each⟩
  · intro w found
    constructor
    · intro unlistable
      obtain ⟨f, notes, stray, stopped⟩ := listFolder_of_unlistable unlistable
      exact ⟨f, notes, stray, World.stopsAt settings execute? stray stopped⟩
    · intro dated
      obtain ⟨place, mode, ends, each⟩ := listable found dated
      have listed := listFolder_of_dated ends each
      exact ⟨_, _, listed none, World.tellsOf settings execute? listed⟩

/-- A folder with names that are hard to read: of dots alone, with a blank at the end, and with letters
that become others in lower case. One link in it leads to a folder, and one leads nowhere. -/
def oddNames : World where
  store := { now := ⟨0⟩, entries := [(["work", "..."], .file ⟨#[120]⟩ 420 ⟨0⟩), (["work", "a. "], .file ⟨#[120]⟩ 420 ⟨0⟩),
    (["work", "lost"], .link "nowhere"), (["work", "sub.D"], .folder 493), (["work", "to"], .link "sub.D"),
    (["work", "x.İΣ"], .file ⟨#[120]⟩ 4095 ⟨0⟩), (["work"], .folder 493), ([], .folder 493)] }
  session := .start ""

theorem odd_names_agree :
    oddNames.store.Orderly ∧ (oddNames.afterLines {} ["DELETE FILES"]).store.Orderly ∧
      oddNames.store.isFolder "/work" = true ∧ oddNames.store.isFolder "/work/..." = false ∧
      listFolder oddNames.store "/work/..." none =
        .error { fault := .command (.pathNotFound "/work/..." none) } ∧
      (Instant.Seconds.ofInstant ⟨0⟩).instant = .ok ⟨0⟩ ∧ ¬ oddNames.store.Unlistable "/work" ∧
      ∃ records notes, Enumerated oddNames.store "/work" records ∧
        records.map (fun r => (r.name, r.extension)) =
          [("...", ""), ("a. ", "."), ("sub.D", ""), ("to", ""), ("x.İΣ", ".i̇ς")] ∧
        Statement.run {} none (.count (some .file)) oddNames =
          (Statement.count (some .file)).told oddNames notes "Files: 3" none ∧
        ∃ shown, shown.map Record.name = ["sub.D", "to"] ∧
          Statement.run {} none (.select .folder { folder := some "." } none none) oddNames =
            (Statement.select .folder { folder := some "." } none none).told oddNames notes
              "Query matched 2 entries." (some shown) := by
  obtain ⟨_, stays, lists, _, seconds, agree⟩ := listings_agree {} none
  have orderly : oddNames.store.Orderly :=
    ⟨Store.sound_of_entries (by decide +kernel), by decide +kernel⟩
  have folder : oddNames.session.folder = "/work" := by decide +kernel
  have ends : oddNames.store.stat true "/work" = .ok (["work"], .folder 493) := by decide +kernel
  have found : oddNames.store.isFolder "/work" = true := Store.isFolder_of_stat ends
  have missing : oddNames.store.isFolder "/work/..." = false := by decide +kernel
  have gathered : oddNames.store.entries.filterMap (fun q => Store.nameIn? ["work"] q.1) =
      ["...", "a. ", "lost", "sub.D", "to", "x.İΣ"] := by decide +kernel
  have names : oddNames.store.names ["work"] = ["...", "a. ", "lost", "sub.D", "to", "x.İΣ"] := by
    rw [Store.names, gathered]
    exact List.mergeSort_of_pairwise (by decide +kernel)
  have each : ∀ name ∈ oddNames.store.names ["work"], ¬ oddNames.store.Dateless "/work" name := by
    rw [names]
    decide +kernel
  have listable : ¬ oddNames.store.Unlistable "/work" :=
    Store.listable_of_dated ends (by rw [gathered, ← names]; exact each)
  have own := listFolder_of_dated ends each none
  rw [names] at own
  obtain ⟨records, notes, enumerated, listed⟩ := ((lists oddNames.store "/work" orderly).2 found).2 listable
  obtain ⟨all, notes', here, tells⟩ := (agree oddNames (folder ▸ found)).2 (folder ▸ listable)
  rw [folder, own] at here
  rw [listed, Except.ok.injEq, Prod.mk.injEq] at own
  obtain ⟨same, rfl⟩ := own
  cases here
  change records = _ at same
  subst same
  have whole : Source.Whole { folder := some "." } oddNames.session oddNames.store :=
    ⟨by decide +kernel, fun text given => by cases given⟩
  have known : ¬ SortSpec.Unknown none := fun ⟨_, given, _⟩ => by cases given
  obtain ⟨shown, _, unordered, ran⟩ := tells.selects .folder _ none whole known
  refine ⟨orderly, stays oddNames ["DELETE FILES"] orderly, found, missing,
    (lists oddNames.store "/work/..." orderly).1 missing none,
    (seconds ⟨0⟩ (by decide)).mpr (by decide), listable, _, _, enumerated, ?_, ?_, shown, ?_, ran⟩
  · decide +kernel
  · exact tells.counts (some .file)
  · rw [unordered rfl]
    decide +kernel

/-- A file that was changed at the end of the year 9999. -/
def lateFile : World where
  store := { now := ⟨0⟩, entries := [(["work", "late"], .file ⟨#[120]⟩ 420 ⟨253402300800000000⟩),
    (["work"], .folder 493), ([], .folder 493)] }
  session := .start ""

/-- A date of the year 10000 leaves a listing, and the statement that asked for it. -/
theorem late_file_stops_listing :
    lateFile.store.Orderly ∧ lateFile.store.isFolder "/work" = true ∧
      (∀ kind, listFolder lateFile.store "/work" kind =
        .error { fault := .store (.stamp (.yearOutOfRange 10000)) }) ∧
      ¬ ∃ o, (execute {} "COUNT FILES" lateFile).1 = .ok o := by
  have orderly : lateFile.store.Orderly :=
    ⟨Store.sound_of_entries (by decide +kernel), by decide +kernel⟩
  have ends : lateFile.store.stat true "/work" = .ok (["work"], .folder 493) := by decide +kernel
  have names : lateFile.store.names ["work"] = ["late"] := by
    have gathered : lateFile.store.entries.filterMap (fun q => Store.nameIn? ["work"] q.1) = ["late"] := by
      decide +kernel
    rw [Store.names, gathered]
    exact List.mergeSort_of_pairwise (by decide +kernel)
  have stopped (kind : Option Kind) : listFolder lateFile.store "/work" kind =
      .error { fault := .store (.stamp (.yearOutOfRange 10000)) } := by
    have records : recordsOf lateFile.store "/work" ["late"] =
        .error { fault := .store (.stamp (.yearOutOfRange 10000)) } := by decide +kernel
    rw [listFolder, Store.namesAt, ends]
    simp only [bind, Except.bind, pure, Except.pure]
    rw [names, records]
    rfl
  refine ⟨orderly, Store.isFolder_of_stat ends, stopped, ?_⟩
  have folder : lateFile.session.folder = "/work" := by decide +kernel
  have stops := World.stopsAt {} (Statement.opening {} 8) (w := lateFile) rfl (folder ▸ stopped)
  have parsed : Statement.parse "COUNT FILES" = .count (some .file) := by decide +kernel
  have line : execute {} "COUNT FILES" lateFile =
      Statement.run {} (Statement.opening {} 8) (Statement.parse "COUNT FILES") lateFile := by
    rw [← Statement.executeBelow_eq_run]
    rfl
  rintro ⟨o, returned⟩
  rw [line, parsed, stops.counts] at returned
  cases returned

end FileQuery
