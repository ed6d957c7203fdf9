import FileQuery.Proofs.Execution.Batch
import FileQuery.Proofs.Execution.Written
import FileQuery.Proofs.Report.Json
import FileQuery.Proofs.Store.ReadBack

/-! Queries with a report. What goes into the report is what the same query without one shows: the
records are selected before anything is written, and the one success is reported after it. -/
set_option autoImplicit false
namespace FileQuery

namespace Statement

variable {settings : Settings} {execute? : Option (String → World → Ran)} {s : Statement}
  {w w' : World} {o : Outcome}

theorem told_before_stop {f : Fault} {r : Run}
    (stopped : (Action.perform settings execute? s).on { toWorld := w } = (.error f, r))
    (ran : run settings execute? s w = (.ok o, w')) {e : Event} (told : e ∈ o.events)
    (success : e.level = .success) : e ∈ r.events := by
  rcases run_eq_ok_cases ran with ⟨_, done, _⟩ | ⟨f', r', code, stopped', _, rfl, _⟩
  · rw [stopped] at done
    cases done
  · rw [stopped] at stopped'
    cases stopped'
    rcases List.mem_append.mp told with before | last
    · exact before
    · rw [List.mem_singleton.mp last] at success
      cases success

theorem no_success_listed {notes : List LogEntry} {errors : List Where.ConditionError} {e : Event}
    (told : e ∈ (({ toWorld := w } : Run).listed settings.matcher notes errors).events) :
    e.level ≠ .success := by
  rw [Run.listed_events, List.nil_append] at told
  obtain ⟨_, _, rfl⟩ := List.mem_map.mp told
  simp [Where.ConditionError.event]

theorem written_of_success {kind : Kind} {source : Source} {order : Option SortSpec} {path : String}
    (ran : run settings execute? (.select kind source order (some path)) w = (.ok o, w'))
    (success : ∃ e ∈ o.events, e.level = .success) :
    ∃ records errors notes text,
      source.selection settings w.session w.store kind order = .ok ((records, errors), notes) ∧
      Action.reportText settings path records = .ok text ∧
      Store.writeText (w.session.resolve [path]) (Text.CodePoints.ofString text) .utf8 w.store =
        (.ok (), w'.store) := by
  suffices wrote : ∃ records errors notes text,
      source.selection settings w.session w.store kind order = .ok ((records, errors), notes) ∧
      Action.reportText settings path records = .ok text ∧
      Store.writeText (w.session.resolve [path]) (w.store.pointsOf text) .utf8 w.store =
        (.ok (), w'.store) by
    obtain ⟨records, errors, notes, text, found, rendered, wrote⟩ := wrote
    refine ⟨records, errors, notes, text, found, rendered, ?_⟩
    rwa [Store.pointsOf_of_decoded (Store.decoded_of_writeText wrote)] at wrote
  obtain ⟨e, told, success⟩ := success
  generalize work : Statement.select kind source order (some path) = s at ran
  have performs : Action.perform settings execute? s =
    Action.selectRecords kind source order (some path) settings := by rw [← work]; rfl
  rcases found : source.selection settings w.session w.store kind order with
    u | ⟨⟨records, errors⟩, notes⟩
  · have begun := Action.on_selection_of_stopped (r := { toWorld := w }) found
    have stopped : (Action.perform settings execute? s).on { toWorld := w } =
        (.error u.fault, { toWorld := { w with log := w.log ++ u.notes } }) := by
      rw [performs, Action.selectRecords, ← bind_assoc, Action.on_bind, begun]
    cases told_before_stop stopped ran told success
  · have written := Action.on_report (r := { toWorld := w }) path found
    rw [← performs] at written
    have store : (({ toWorld := w } : Run).listed settings.matcher notes errors).store = w.store :=
      Run.listed_store _ _ notes errors
    cases rendered : Action.reportText settings path records with
    | error f =>
        rw [rendered] at written
        exact absurd success (no_success_listed (told_before_stop written ran told success))
    | ok text =>
        rw [rendered] at written
        dsimp only at written
        rw [Action.on_finish, store] at written
        refine ⟨records, errors, notes, text, rfl, rendered, ?_⟩
        rcases done : Store.writeText (w.session.resolve [path]) (w.store.pointsOf text) .utf8
          w.store with ⟨f | _, store'⟩
        · rw [done] at written
          exact absurd success (no_success_listed (told_before_stop written ran told success))
        · rw [done] at written
          rw [run_of_ok written] at ran
          cases ran
          rfl

/-- A report that can be rendered is written if its file opens and no name in it has a byte that is no
text. -/
theorem success_of_opened (execute? : Option (String → World → Ran)) {kind : Kind} {source : Source}
    {order : Option SortSpec} {path text : String} {records : List Record}
    {errors : List Where.ConditionError} {notes : List LogEntry} {place : Place} {old : ByteArray}
    {mode : Nat}
    (found : source.selection settings w.session w.store kind order = .ok ((records, errors), notes))
    (rendered : Action.reportText settings path records = .ok text)
    (decoded : ∀ c ∈ text.toList, c ∉ w.store.undecoded)
    (opens : w.store.opened (w.session.resolve [path]) .utf8 = .ok (place, old, mode)) :
    ∃ o w', run settings execute? (.select kind source order (some path)) w = (.ok o, w') ∧
      ∃ e ∈ o.events, e.level = .success := by
  have written : (Action.perform settings execute? (.select kind source order (some path))).on
    { toWorld := w } = _ := Action.on_report path found
  have store : (({ toWorld := w } : Run).listed settings.matcher notes errors).store = w.store :=
    Run.listed_store _ _ notes errors
  rw [rendered] at written
  dsimp only at written
  rw [Action.on_finish, store, Store.pointsOf_of_decoded decoded, Store.writeText_of_opened opens text] at written
  exact ⟨_, _, run_of_ok written, _, List.mem_concat_self, rfl⟩

end Statement

/-- A report in JSON is read back as what the query shows without it. If a query with a report for a
file with the extension of JSON, in any case, reports a success, then the bytes of that file are a
text in UTF-8, and the text is a document that holds, in order, the object of each record that the
query without the report gives in the same state. It is so for a reader of numbers of any length; a
reader with a limit reads the same unless a size has more digits. -/
theorem json_report_reads_back {settings : Settings} {execute? : Option (String → World → Ran)}
    {kind : Kind} {source : Source} {order : Option SortSpec} {path : String} {w w' : World}
    {o : Outcome}
    (extension : Text.lower (Path.extension (Path.baseName path.toList)) = ".json".toList)
    (ran : Statement.run settings execute? (.select kind source order (some path)) w = (.ok o, w'))
    (success : ∃ e ∈ o.events, e.level = .success) :
    ∃ (shown : Outcome) (v : World) (records : List Record) (bytes : ByteArray) (text : String),
      Statement.run settings execute? (.select kind source order none) w = (.ok shown, v) ∧
      shown.records = some records ∧
      w'.store.bytesAt (w.session.resolve [path]) = .ok bytes ∧
      Codec.decodeUtf8 bytes = .ok text ∧
      Json.read text.toList none = .ok (.array (records.map Record.toJson)) ∧
      ∀ limit, (∀ r ∈ records, Json.Fits limit r.size) →
        Json.read text.toList limit = .ok (.array (records.map Record.toJson)) := by
  obtain ⟨records, errors, notes, text, found, rendered, written⟩ :=
    Statement.written_of_success ran success
  obtain ⟨shown, v, queried, _, shows, _⟩ := Statement.run_select execute? found
  have same : text = Report.json records := by
    rw [Action.reportText] at rendered
    cases style : settings.style with
    | error f =>
        rw [style] at rendered
        cases rendered
    | ok style' =>
        rw [style] at rendered
        dsimp only at rendered
        rw [Report.render_json style' records extension] at rendered
        exact (Except.ok.inj rendered).symm
  subst same
  refine ⟨shown, v, records, _, Report.json records, queried, shows,
    Store.bytesAt_of_writeText written, Codec.decodeUtf8_toUTF8 _, ?_, ?_⟩
  · exact Report.read_json fun r _ => Json.fits_none r.size
  · exact fun limit fits => Report.read_json fits

/-- A file with a name that no line shows as it is. -/
def quotedFile : World where
  store := { now := ⟨0⟩, entries := [(["work", "a\"\\\n\u2028é"], .file ⟨#[120]⟩ 420 ⟨0⟩), (["work"], .folder 493),
    ([], .folder 493)] }
  session := .start ""

theorem quoted_name_reads_back :
    ∃ o w' shown v records bytes text,
      Statement.run {} none (.select .file {} none (some "out.JSON")) quotedFile = (.ok o, w') ∧
      (∃ e ∈ o.events, e.level = .success) ∧
      Statement.run {} none (.select .file {} none none) quotedFile = (.ok shown, v) ∧
      shown.records = some records ∧
      w'.store.bytesAt (quotedFile.session.resolve ["out.JSON"]) = .ok bytes ∧
      Codec.decodeUtf8 bytes = .ok text ∧
      Json.read text.toList none = .ok (.array (records.map Record.toJson)) := by
  have selects : (Source.selection {} {} quotedFile.session quotedFile.store .file none).isOk =
    true := by decide +kernel
  have opens : (quotedFile.store.opened (quotedFile.session.resolve ["out.JSON"]) .utf8).isOk =
    true := by decide
  have extension : Text.lower (Path.extension (Path.baseName "out.JSON".toList)) = ".json".toList := by
    decide
  rcases found : Source.selection {} {} quotedFile.session quotedFile.store .file none with
    e | ⟨⟨kept, errors⟩, notes⟩
  · rw [found] at selects
    cases selects
  rcases opened : quotedFile.store.opened (quotedFile.session.resolve ["out.JSON"]) .utf8 with
    f | ⟨place, old, mode⟩
  · rw [opened] at opens
    cases opens
  have rendered : Action.reportText {} "out.JSON" kept = .ok (Report.json kept) := by
    simp only [Action.reportText, Report.render_json _ _ extension, mapError_ok]
  obtain ⟨o, w', ran, success⟩ := Statement.success_of_opened none found rendered
    (by simp [quotedFile]) opened
  obtain ⟨shown, v, records, bytes, text, queried, shows, written, decoded, back, _⟩ :=
    json_report_reads_back extension ran success
  exact ⟨o, w', shown, v, records, bytes, text, ran, success, queried, shows, written, decoded, back⟩

end FileQuery
