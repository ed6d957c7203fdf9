import FileQuery.Proofs.Execution.Refused
import FileQuery.Proofs.Store.Entries
import FileQuery.Proofs.Store.Members
import FileQuery.Proofs.Store.Sound

/-! What the records of a folder say of the store: each is of an entry that stands in the folder under
the record's name, and its path leads there. -/
set_option autoImplicit false
namespace FileQuery

/-- Of an entry that stands in a folder under its own name, and leads to something of a kind. -/
structure Record.Stands (r : Record) (s : Store) (folder : String) (place : Place) (kind : Kind) :
    Prop where
  path : r.path = Store.joinName folder r.name
  clean : Path.Clean r.name.toList
  sort : r.kind = kind
  leads : s.holds r.path (some kind) = true
  own : ∃ e, s.get? (place ++ [r.name]) = some e ∧ s.stat false r.path = .ok (place ++ [r.name], e)

variable {s : Store} {folder path : String} {place : Place} {kind : Kind} {r : Record}

theorem holds_of_status {e : Entry} {status : Stat} (ends : s.stat true path = .ok (place, e))
    (told : s.status? place e = some (kind, status)) : s.holds path (some kind) = true := by
  cases e with
  | folder mode =>
      cases told
      exact Store.isFolder_of_stat ends
  | file bytes mode modified =>
      cases told
      have held : s.isFile path = true := by rw [Store.isFile, ends]
      exact held
  | link target => cases told

theorem exists_status (held : s.holds path (some kind) = true) :
    ∃ place e status, s.stat true path = .ok (place, e) ∧
      s.status? place e = some (kind, status) := by
  cases kind with
  | file =>
      obtain ⟨place, bytes, mode, modified, ends⟩ := Store.of_isFile held
      exact ⟨place, _, _, ends, rfl⟩
  | folder =>
      obtain ⟨place, mode, ends⟩ := Store.of_isFolder held
      exact ⟨place, _, _, ends, rfl⟩

theorem of_recordAt (found : recordAt s path = .ok r) :
    r.path = path ∧ r.name = String.ofList (Path.baseName path.toList) ∧
      s.holds path (some r.kind) = true := by
  obtain ⟨place, e, kind, status, ends, told, made⟩ := of_recordAt_eq_ok found
  have held := holds_of_status ends told
  obtain ⟨modified, created, _, _, rfl⟩ := of_ofStat made
  exact ⟨rfl, rfl, held⟩

theorem name_of_recordAt {name : String} (clean : Path.Clean name.toList)
    (found : recordAt s (Store.joinName folder name) = .ok r) : r.name = name := by
  rw [(of_recordAt found).2.1, Store.joinName, String.toList_ofList, clean.baseName_join,
    String.ofList_toList]

theorem mem_listFolder {records : List Record} {notes : List LogEntry}
    (found : listFolder s folder (some kind) = .ok (records, notes)) :
    ∃ place mode, s.stat true folder = .ok (place, .folder mode) ∧ ∀ r, r ∈ records ↔
      r.kind = kind ∧ ∃ name ∈ s.names place, recordAt s (Store.joinName folder name) = .ok r := by
  have whole := listed s folder (some kind)
  rw [found] at whole
  cases whole with
  | done named dated =>
      obtain ⟨place, mode, ends, rfl⟩ := Store.of_namesAt named
      refine ⟨place, mode, ends, fun r => ?_⟩
      rw [Record.ofKind, List.mem_filter, mem_recordsAt, and_comm, decide_eq_true_iff]

theorem Store.listable_of_dated {mode : Nat} (ends : s.stat true folder = .ok (place, .folder mode))
    (dated : ∀ name ∈ s.entries.filterMap (fun q => Store.nameIn? place q.1),
      ¬ s.Dateless folder name) : ¬ s.Unlistable folder := by
  rintro ⟨names, named, name, member, dateless⟩
  obtain ⟨place', mode', ends', rfl⟩ := Store.of_namesAt named
  rw [ends] at ends'
  cases ends'
  rw [Store.names, List.mem_mergeSort] at member
  exact dated name member dateless

theorem Store.Sound.stands (sound : s.Sound) {mode : Nat} {records : List Record}
    {notes : List LogEntry} (ends : s.stat true folder = .ok (place, .folder mode))
    (listed : listFolder s folder (some kind) = .ok (records, notes)) (member : r ∈ records) :
    r.Stands s folder place kind := by
  obtain ⟨place', mode', ends', each⟩ := mem_listFolder listed
  rw [ends'] at ends
  cases ends
  obtain ⟨rfl, name, named, found⟩ := (each r).mp member
  obtain ⟨e, there⟩ := Store.mem_names.mp named
  have clean := sound.named _ _ _ there
  obtain ⟨path, _, leads⟩ := of_recordAt found
  obtain rfl : r.name = name := name_of_recordAt clean found
  obtain ⟨_, _, _, followed, _⟩ := exists_status leads
  rw [← path] at leads
  exact ⟨path, clean, rfl, leads, path ▸ Store.stat_joinName ends' clean followed⟩

/-- When the records of a kind are gone, with their entries, and what is left of that kind is told of as
before, none of it is listed. -/
theorem Store.Sound.none_listed (sound : s.Sound) {t : Store} {mode : Nat}
    {records records' : List Record} {notes notes' : List LogEntry}
    (ends : s.stat true folder = .ok (place, .folder mode))
    (found : listFolder s folder (some kind) = .ok (records, notes))
    (left : ∀ q, t.get? q = if ∃ record ∈ records, place ++ [record.name] <+: q then none else s.get? q)
    (same : ∀ q e status, t.get? q = some e → t.status? q e = some (kind, status) →
      s.status? q e = some (kind, status))
    (found' : listFolder t folder (some kind) = .ok (records', notes')) : records' = [] := by
  have keeps : Store.Keeps t s := Store.keeps_of_get? left
  obtain ⟨place', mode', ends', each'⟩ := mem_listFolder found'
  obtain ⟨place'', _, ends'', each⟩ := mem_listFolder found
  obtain ⟨e, again, _⟩ := keeps.stat ends'
  rw [ends] at again ends''
  cases again
  cases ends''
  rw [List.eq_nil_iff_forall_not_mem]
  intro r member
  obtain ⟨rfl, name, named, looked⟩ := (each' r).mp member
  obtain ⟨e, there⟩ := Store.mem_names.mp named
  obtain ⟨e', there', _⟩ := keeps _ _ there
  -- what the name leads to is as it was, so the record was listed before
  have looked' : recordAt s (Store.joinName folder name) = .ok r := by
    obtain ⟨q, e, kind', status, followed, told, made⟩ := of_recordAt_eq_ok looked
    obtain ⟨e', followed', _⟩ := keeps.stat followed
    have stays := left q
    rw [Store.get?_of_stat followed] at stays
    split at stays
    · cases stays
    · rw [Store.get?_of_stat followed', Option.some.injEq] at stays
      subst stays
      have sort : r.kind = kind' := by
        obtain ⟨_, _, _, _, rfl⟩ := of_ofStat made
        rfl
      rw [← sort] at told
      rw [recordAt_of_status followed' (same q e status (Store.get?_of_stat followed) told), sort, made]
      rfl
  have member' : r ∈ records := (each r).mpr ⟨rfl, name, Store.mem_names.mpr ⟨e', there'⟩, looked'⟩
  have own : r.name = name := name_of_recordAt (sound.named _ _ _ there') looked'
  rw [left, if_pos ⟨r, member', own ▸ List.prefix_refl _⟩] at there
  cases there

end FileQuery
