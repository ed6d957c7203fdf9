import FileQuery.Proofs.Execution.Returned
import FileQuery.Proofs.Execution.Selected
import FileQuery.Proofs.Store.Writing

/-! What statements that write a text leave when they fail. Each looks at the store, at most reports
something, and comes to one change and a report on it; whatever stops it before leaves the store as
it was. -/
set_option autoImplicit false
namespace FileQuery

open Store (Writing)

/-- Whether a run gives an outcome whose last event is a success. -/
def Ran.Succeeded (ran : Ran) : Prop :=
  ∃ o e, ran.1 = .ok o ∧ o.events.getLast? = some e ∧ e.level = .success

namespace Action

variable {settings : Settings} {r : Run}

def finish (c : Store.Change) (message : String) : Action Unit := do
  change c
  emit .success message

def givenText (content : String) : Text.CodePoints :=
  match Text.decodeEscapes content.toList with
  | .ok text => text
  | .error _ => Text.CodePoints.ofString content

/-- Comes to a change of the store as it is, unless something stops it before. -/
def Finishes (c? : Except Fault Store.Change) (a : Action Unit) (r : Run) : Prop :=
  ∃ r', r'.store = r.store ∧
    match c? with
    | .ok c => ∃ message, a.on r = (finish c message).on r'
    | .error f => a.on r = (.error f, r')

section
variable {α : Type} {c? : Except Fault Store.Change} {a : Action α} {k : α → Action Unit}

theorem finishes (c : Store.Change) (message : String) : Finishes (.ok c) (finish c message) r :=
  ⟨r, rfl, message, rfl⟩

theorem Finishes.next {x : α} {r' : Run} (done : a.on r = (.ok x, r')) (kept : r'.store = r.store)
    (rest : Finishes c? (k x) r') : Finishes c? (a >>= k) r := by
  obtain ⟨r'', kept', same⟩ := rest
  refine ⟨r'', kept'.trans kept, ?_⟩
  rw [on_bind, done]
  exact same

theorem Finishes.stop {f : Fault} {r' : Run} (stopped : a.on r = (.error f, r'))
    (kept : r'.store = r.store) : Finishes (.error f) (a >>= k) r :=
  ⟨r', kept, by rw [on_bind, stopped]⟩

end

theorem finishes_writeFile (name content : String) :
    Finishes (.ok (Store.writeText (r.session.resolve [name]) (givenText content)
      settings.encoding)) (writeFile name content settings) r := by
  rw [writeFile, givenText]
  cases Text.decodeEscapes content.toList with
  | ok points =>
      exact Finishes.next (on_pure _) rfl (Finishes.next (on_resolve _) rfl (finishes _ _))
  | error e =>
      exact Finishes.next (on_emit _ _ _) rfl (Finishes.next (on_pure _) rfl
        (Finishes.next (on_resolve _) rfl (finishes _ _)))

theorem finishes_appendFile (name content : String) :
    Finishes (.ok (Store.appendText (r.session.resolve [name]) (Text.CodePoints.ofString content)
      settings.encoding)) (appendFile name content settings) r :=
  Finishes.next (on_resolve _) rfl (finishes _ _)

/-! Merges. -/

section
variable {sources : List String} (destination : String)

theorem on_merge_of_merged {text : String}
    (merged : mergedText settings r.store r.session sources = .ok text) :
    (merge sources destination settings).on r =
      (finish (Store.writeText (r.session.resolve [destination]) (Text.CodePoints.ofString text)
        settings.encoding) ("Merged files into \"" ++ destination ++ "\".")).on
        (r.reportedAll (sources.filterMap (sourceReport? settings r.store r.session))) := by
  have read := on_mergeParts_eq settings sources r
  rw [mergedText] at merged
  cases parts : sources.mapM (mergedPart settings r.store r.session) with
  | error f =>
      rw [parts] at merged
      cases merged
  | ok texts =>
      rw [parts] at merged read
      obtain rfl := Except.ok.inj merged
      rw [merge, on_bind, read]
      simp only [on_bind, on_resolve, r.reportedAll_session, finish]

theorem on_merge_of_stopped {f : Store.Fault}
    (stopped : mergedText settings r.store r.session sources = .error f) :
    ∃ es, (merge sources destination settings).on r = (.error (.store f), r.reportedAll es) := by
  have read := on_mergeParts_eq settings sources r
  rw [mergedText] at stopped
  cases parts : sources.mapM (mergedPart settings r.store r.session) with
  | error g =>
      rw [parts] at stopped read
      obtain rfl := Except.error.inj stopped
      obtain ⟨es, read⟩ := read
      exact ⟨es, by rw [merge, on_bind, read]⟩
  | ok texts =>
      rw [parts] at stopped
      cases stopped

end

theorem finishes_merge (settings : Settings) (sources : List String) (destination : String) :
    Finishes (((mergedText settings r.store r.session sources).map fun text =>
        Store.writeText (r.session.resolve [destination]) (Text.CodePoints.ofString text)
          settings.encoding).mapError .store)
      (merge sources destination settings) r := by
  cases merged : mergedText settings r.store r.session sources with
  | ok text => exact ⟨r.reportedAll _, rfl, _, on_merge_of_merged destination merged⟩
  | error f =>
      obtain ⟨es, stopped⟩ := on_merge_of_stopped destination merged
      exact ⟨r.reportedAll es, rfl, stopped⟩

/-! Reports. -/

def reportText (settings : Settings) (path : String) (records : List Record) :
    Except Fault String :=
  match settings.style with
  | .error f => .error f
  | .ok style => (Report.render style path records).mapError .illTyped

theorem on_report (path : String) {kind : Kind} {source : Source} {order : Option SortSpec}
    {kept : List Record} {errors : List Where.ConditionError} {notes : List LogEntry}
    (found : source.selection settings r.session r.store kind order = .ok ((kept, errors), notes)) :
    (selectRecords kind source order (some path) settings).on r =
      match reportText settings path kept with
      | .error f => (.error f, r.listed settings.matcher notes errors)
      | .ok text =>
        (finish (Store.writeText (r.session.resolve [path]) (r.store.pointsOf text) .utf8)
          ("Results saved to: " ++ path)).on (r.listed settings.matcher notes errors) := by
  have session : (r.listed settings.matcher notes errors).session = r.session :=
    r.listed_session settings.matcher notes errors
  have store : (r.listed settings.matcher notes errors).store = r.store :=
    r.listed_store settings.matcher notes errors
  rw [selectRecords, ← bind_assoc, on_bind, on_selection found, reportText, ← session, ← store]
  cases settings.style with
  | error f => rfl
  | ok style =>
      dsimp only
      simp only [on_bind, on_pure]
      cases Report.render style path kept with
      | error cause => simp only [on_throw, mapError_error]
      | ok text => simp only [on_bind, on_resolve, on_get, mapError_ok, finish]

/-- The text of the report that a query comes to write. -/
def reported (settings : Settings) (s : Store) (session : Session) (kind : Kind) (source : Source)
    (order : Option SortSpec) (path : String) : Except Fault String :=
  match source.selection settings session s kind order with
  | .error u => .error u.fault
  | .ok ((kept, _), _) => reportText settings path kept

theorem finishes_selectRecords (settings : Settings) (kind : Kind) (source : Source)
    (order : Option SortSpec) (path : String) :
    Finishes ((reported settings r.store r.session kind source order path).map fun text =>
        Store.writeText (r.session.resolve [path]) (r.store.pointsOf text) .utf8)
      (selectRecords kind source order (some path) settings) r := by
  rcases found : source.selection settings r.session r.store kind order with
    u | ⟨⟨kept, errors⟩, notes⟩
  · rw [reported, found, selectRecords, ← bind_assoc]
    exact Finishes.stop (on_selection_of_stopped found) rfl
  · have written := on_report path found
    have store : (r.listed settings.matcher notes errors).store = r.store :=
      r.listed_store settings.matcher notes errors
    have same : reported settings r.store r.session kind source order path =
        reportText settings path kept := by rw [reported, found]
    rw [same]
    cases text : reportText settings path kept with
    | error f =>
        rw [text] at written
        exact ⟨_, store, written⟩
    | ok text' =>
        rw [text] at written
        exact ⟨_, store, _, written⟩

theorem on_finish (c : Store.Change) (message : String) :
    (finish c message).on r =
      match c r.store with
      | (.ok _, store) => (.ok (), { r with store }.reported .success message none)
      | (.error f, store) => (.error (.store f), { r with store }) := by
  rw [finish, on_bind]
  rcases done : c r.store with ⟨f | _, store⟩
  · rw [on_change_error done]
  · rw [on_change_ok done]
    rfl

end Action

namespace Statement

variable {settings : Settings} {execute? : Option (String → World → Ran)} {s : Statement} {w : World}

/-- The file that a statement writes a text to. -/
def destination? : Statement → Option String
  | .write name _ | .append name _ | .merge _ name | .select _ _ _ (some name) => some name
  | _ => none

/-- What a statement writes, and in which encoding: a report is written in UTF-8. -/
def writing? (settings : Settings) (w : World) : Statement → Option (Writing × Store.Encoding)
  | .write name content =>
    some (⟨w.session.resolve [name], Action.givenText content, false⟩, settings.encoding)
  | .append name content =>
    some (⟨w.session.resolve [name], Text.CodePoints.ofString content, true⟩, settings.encoding)
  | .merge sources destination =>
    match Action.mergedText settings w.store w.session sources with
    | .ok text =>
      some (⟨w.session.resolve [destination], Text.CodePoints.ofString text, false⟩, settings.encoding)
    | .error _ => none
  | .select kind source order (some path) =>
    match Action.reported settings w.store w.session kind source order path with
    | .ok text => some (⟨w.session.resolve [path], w.store.pointsOf text, false⟩, .utf8)
    | .error _ => none
  | _ => none

/-- Whether the file of a statement opens for a text that then has no bytes in the encoding. -/
def CutShort (settings : Settings) (w : World) (s : Statement) : Prop :=
  ∃ x encoding, s.writing? settings w = some (x, encoding) ∧ x.CutShort encoding w.store

/-- What is left of the bytes of a file when a text is cut short: all of them if it was to be
appended. -/
def leftover (old : ByteArray) : Statement → ByteArray
  | .append .. => old
  | _ => ByteArray.empty

/-- The work of a statement that writes a text comes to writing it, unless it stops before that. -/
theorem finishes_perform (settings : Settings) (execute? : Option (String → World → Ran)) (w : World)
    {name : String} (writes : s.destination? = some name) :
    (∃ x encoding, s.writing? settings w = some (x, encoding) ∧ x.path = w.session.resolve [name] ∧
        (∀ old, x.kept old = s.leftover old) ∧
        Action.Finishes (.ok (x.change encoding))
          (Action.perform settings execute? s) { toWorld := w }) ∨
      (s.writing? settings w = none ∧ ∃ f,
        Action.Finishes (.error f) (Action.perform settings execute? s) { toWorld := w }) := by
  let r : Run := { toWorld := w }
  cases s with
  | write name' content =>
      obtain rfl : name' = name := Option.some.inj writes
      exact .inl ⟨_, _, rfl, rfl, fun _ => rfl, Action.finishes_writeFile (r := r) name' content⟩
  | append name' content =>
      obtain rfl : name' = name := Option.some.inj writes
      exact .inl ⟨_, _, rfl, rfl, fun _ => rfl, Action.finishes_appendFile (r := r) name' content⟩
  | merge sources destination =>
      obtain rfl : destination = name := Option.some.inj writes
      have ends := Action.finishes_merge (r := r) settings sources destination
      have same : Action.mergedText settings r.store r.session sources =
          Action.mergedText settings w.store w.session sources := rfl
      rw [same] at ends
      rw [writing?]
      cases merged : Action.mergedText settings w.store w.session sources with
      | ok text =>
          rw [merged] at ends
          exact .inl ⟨_, _, rfl, rfl, fun _ => rfl, ends⟩
      | error f =>
          rw [merged] at ends
          exact .inr ⟨rfl, _, ends⟩
  | select kind source order into =>
      cases into with
      | none => cases writes
      | some path =>
          obtain rfl : path = name := Option.some.inj writes
          have ends := Action.finishes_selectRecords (r := r) settings kind source order path
          have same : Action.reported settings r.store r.session kind source order path =
              Action.reported settings w.store w.session kind source order path := rfl
          rw [same] at ends
          cases text : Action.reported settings w.store w.session kind source order path with
          | ok text' =>
              have written : writing? settings w (.select kind source order (some path)) =
                  some (⟨w.session.resolve [path], w.store.pointsOf text', false⟩, .utf8) := by
                rw [writing?, text]
              rw [text] at ends
              refine .inl ⟨_, _, written, rfl, fun _ => rfl, ?_⟩
              rw [Writing.change_overwriting]
              exact ends
          | error f =>
              have written : writing? settings w (.select kind source order (some path)) = none := by
                rw [writing?, text]
              rw [text] at ends
              exact .inr ⟨written, _, ends⟩
  | _ => cases writes

/-- In UTF-8 only a text with a lone surrogate is cut short, which only escapes and names give. -/
theorem surrogate_of_cutShort (utf8 : settings.encoding = .utf8) (cut : s.CutShort settings w) :
    (∃ name content points, s = .write name content ∧
      Text.decodeEscapes content.toList = .ok points ∧ ∃ n ∈ points, Text.isSurrogate n = true) ∨
    ∃ kind source order path, s = .select kind source order (some path) := by
  obtain ⟨x, encoding, writes, cut⟩ := cut
  cases s with
  | write name content =>
      cases writes
      rw [utf8] at cut
      have surrogate := Writing.surrogate_of_cutShort cut
      rw [Action.givenText] at surrogate
      cases decoded : Text.decodeEscapes content.toList with
      | ok points =>
          rw [decoded] at surrogate
          exact .inl ⟨name, content, points, rfl, decoded, surrogate⟩
      | error e =>
          rw [decoded] at surrogate
          exact absurd surrogate (Store.plain_ofString content)
  | append name content =>
      cases writes
      rw [utf8] at cut
      exact absurd cut Writing.not_cutShort_ofString
  | merge sources destination =>
      rw [writing?] at writes
      split at writes
      · cases writes
        rw [utf8] at cut
        exact absurd cut Writing.not_cutShort_ofString
      · cases writes
  | select kind source order into =>
      cases into with
      | none => cases writes
      | some path => exact .inr ⟨kind, source, order, path, rfl⟩
  | _ => cases writes

end Statement

def oneLetter : World where
  store := { now := ⟨0⟩, entries := [(["work", "a.txt"], .file ⟨#[120]⟩ 420 ⟨0⟩), (["work"], .folder 493),
    ([], .folder 493)] }
  session := .start ""

end FileQuery
