import FileQuery.Proofs.Execution.Batch
import FileQuery.Proofs.Execution.Written
import FileQuery.Proofs.Store.ReadBack

/-! Merges that end in a success. Every source is looked up and read in the store before the
statement, the destination too if it is one of them, and what is found of each is settled by its name
alone. -/
set_option autoImplicit false
namespace FileQuery

namespace Action

/-- The text of a source of a merge, if it is a file and can be read. -/
def sourceText? (settings : Settings) (s : Store) (session : Session) (name : String) :
    Option String :=
  if s.isFile (session.resolve [name]) then
    (s.readText (session.resolve [name]) settings.encoding).toOption
  else none

section
variable {settings : Settings} {s : Store} {session : Session}

theorem mergedPart_eq {name part : String} (taken : mergedPart settings s session name = .ok part) :
    part = ((sourceText? settings s session name).map (· ++ "\n")).getD "" := by
  rw [mergedPart] at taken
  rw [sourceText?]
  split
  · next isFile =>
      rw [if_pos isFile] at taken
      cases read : s.readText (session.resolve [name]) settings.encoding with
      | ok text =>
          rw [read] at taken
          exact (Except.ok.inj taken).symm
      | error f =>
          simp only [read] at taken
          split at taken
          · exact (Except.ok.inj taken).symm
          · cases taken
  · next absent =>
      rw [if_neg absent] at taken
      exact (Except.ok.inj taken).symm

theorem mergedText_eq {sources : List String} {text : String}
    (merged : mergedText settings s session sources = .ok text) :
    text = String.join ((sources.filterMap (sourceText? settings s session)).map (· ++ "\n")) := by
  obtain ⟨parts, taken, rfl⟩ : ∃ parts,
      sources.mapM (mergedPart settings s session) = .ok parts ∧ String.join parts = text := by
    rw [mergedText] at merged
    cases taken : sources.mapM (mergedPart settings s session) with
    | error f =>
        rw [taken] at merged
        cases merged
    | ok parts => exact ⟨parts, rfl, by rw [taken] at merged; exact Except.ok.inj merged⟩
  clear merged
  induction sources generalizing parts with
  | nil =>
      obtain rfl := Except.ok.inj taken
      rfl
  | cons name rest ih =>
      rw [List.mapM_cons] at taken
      cases first : mergedPart settings s session name with
      | error f =>
          rw [first] at taken
          cases taken
      | ok part =>
          cases others : rest.mapM (mergedPart settings s session) with
          | error f =>
              rw [first, others] at taken
              cases taken
          | ok parts' =>
              rw [first, others] at taken
              obtain rfl := Except.ok.inj taken
              rw [String.join_cons, ih parts' others, mergedPart_eq first]
              cases found : sourceText? settings s session name with
              | none => simp [found]
              | some text => simp [found, String.join_cons]

end

end Action

/-- What a line gives that changes the store and reports some events. -/
def Ran.reportingAll (s : Statement) (es : List Event) (store : Store) (w : World) : Ran :=
  (.ok { statement := s, events := es },
   { w with
     store
     log := w.log ++ es.map fun e => { level := .ofEvent e.level, message := e.message } })

def mergedInto (destination : String) : Event :=
  { level := .success, message := "Merged files into \"" ++ destination ++ "\"." }

namespace Statement

variable {settings : Settings} {execute? : Option (String → World → Ran)} {w : World}

theorem not_succeeded_of_error {s : Statement} {f : Fault} {r : Run}
    (stopped : (Action.perform settings execute? s).on { toWorld := w } = (.error f, r)) :
    ¬ (run settings execute? s w).Succeeded := by
  have ran := run_eq settings execute? s w
  simp only [stopped] at ran
  rintro ⟨o, e, returned, last, success⟩
  rcases ran with ⟨_, ran⟩ | ⟨_, code, ran⟩
  · rw [ran] at returned
    cases returned
  · rw [ran] at returned
    obtain rfl := Except.ok.inj returned
    obtain rfl := Option.some.inj (List.getLast?_concat.symm.trans last)
    cases success

section
variable {sources : List String} {destination text : String} {store : Store}

theorem run_merge (merged : Action.mergedText settings w.store w.session sources = .ok text)
    (done : Store.writeText (w.session.resolve [destination]) (Text.CodePoints.ofString text)
      settings.encoding w.store = (.ok (), store)) :
    run settings execute? (.merge sources destination) w =
      .reportingAll (.merge sources destination)
        (sources.filterMap (Action.sourceReport? settings w.store w.session) ++
          [mergedInto destination]) store w := by
  have works : (Action.perform settings execute? (.merge sources destination)).on
      { toWorld := w } = _ := Action.on_merge_of_merged destination merged
  rw [Action.on_finish, Run.reportedAll_store] at works
  simp only [done] at works
  rw [run_of_ok works]
  simp [Ran.reportingAll, outcome, Run.reported, Run.reportedAll, mergedInto]

/-- A merge ends in a success exactly when no source stops it and what it takes is written. -/
theorem merge_succeeded_iff : (run settings execute? (.merge sources destination) w).Succeeded ↔
    ∃ text store, Action.mergedText settings w.store w.session sources = .ok text ∧
      Store.writeText (w.session.resolve [destination]) (Text.CodePoints.ofString text)
        settings.encoding w.store = (.ok (), store) := by
  constructor
  · intro ended
    cases merged : Action.mergedText settings w.store w.session sources with
    | error f =>
        obtain ⟨es, stopped⟩ : ∃ es, (Action.perform settings execute?
            (.merge sources destination)).on { toWorld := w } = (_, Run.reportedAll _ es) :=
          Action.on_merge_of_stopped destination merged
        exact absurd ended (not_succeeded_of_error stopped)
    | ok text =>
        have works : (Action.perform settings execute? (.merge sources destination)).on
            { toWorld := w } = _ := Action.on_merge_of_merged destination merged
        rw [Action.on_finish, Run.reportedAll_store] at works
        rcases done : Store.writeText (w.session.resolve [destination])
          (Text.CodePoints.ofString text) settings.encoding w.store with ⟨f | _, store⟩
        · simp only [done] at works
          exact absurd ended (not_succeeded_of_error works)
        · exact ⟨text, store, rfl, done⟩
  · rintro ⟨text, store, merged, done⟩
    rw [run_merge merged done]
    exact ⟨_, _, rfl, List.getLast?_concat, rfl⟩

end

end Statement

open Statement in
/-- A merge that ends in a success has reported on each source that is not there or cannot be read,
in their order, and last on the merge. The destination holds the bytes of what the others held before
the statement, a line break behind each, and no other place has changed. -/
theorem merge_reads_before_writing {settings : Settings} {execute? : Option (String → World → Ran)}
    {w : World} {sources : List String} {destination : String}
    (ended : (run settings execute? (.merge sources destination) w).Succeeded) :
    ∃ store place old mode bytes,
      run settings execute? (.merge sources destination) w =
        .reportingAll (.merge sources destination)
          (sources.filterMap (Action.sourceReport? settings w.store w.session) ++
            [mergedInto destination]) store w ∧
      w.store.target (w.session.resolve [destination]) = .ok (place, old, mode) ∧
      Store.encodeText settings.encoding true (Text.CodePoints.ofString (String.join
        ((sources.filterMap (Action.sourceText? settings w.store w.session)).map (· ++ "\n")))) =
          .ok bytes ∧
      store = w.store.putBytes place mode bytes ∧
      store.bytesAt (w.session.resolve [destination]) = .ok bytes ∧
      ∀ q ≠ place, store.get? q = w.store.get? q := by
  obtain ⟨text, store, merged, done⟩ := merge_succeeded_iff.mp ended
  obtain ⟨place, old, mode, bytes, file, encoded, rfl, back⟩ :=
    Store.Writing.bytesAt_of_done (x := ⟨w.session.resolve [destination], .ofString text, false⟩) done
  rw [Store.Writing.kept, if_neg Bool.false_ne_true, ByteArray.empty_append] at back done
  refine ⟨_, place, old, mode, bytes, run_merge merged done, file, ?_, rfl, back, fun q apart => ?_⟩
  · rw [← Action.mergedText_eq merged]
    exact encoded
  · rw [Store.putBytes, Store.get?_put, if_neg apart]

/-- A file with one letter in it, and a file that holds no text in UTF-8. -/
def letterAndByte : World where
  store := { now := ⟨0⟩, entries := [(["work", "a.txt"], .file ⟨#[120]⟩ 420 ⟨0⟩),
    (["work", "b.txt"], .file ⟨#[255]⟩ 420 ⟨0⟩), (["work"], .folder 493), ([], .folder 493)] }
  session := .start ""

/-- The file with the letter twice, under two names, and between them no file and no text. -/
def mixedSources : List String := ["a.txt", "gone", "b.txt", "./a.txt"]

theorem merge_of_mixed_sources :
    ∃ store, Statement.run {} none (.merge mixedSources "a.txt") letterAndByte =
        .reportingAll (.merge mixedSources "a.txt")
          [⟨.warning, "File \"gone\" does not exist, skipping.", some "gone"⟩,
           ⟨.error, "Cannot read file \"b.txt\": 'utf-8' codec can't decode byte 0xff in " ++
              "position 0: invalid start byte", some "b.txt"⟩,
           mergedInto "a.txt"] store letterAndByte ∧
      store.bytesAt "/work/a.txt" = .ok ⟨#[120, 10, 120, 10]⟩ ∧
      store.get? ["work", "b.txt"] = letterAndByte.store.get? ["work", "b.txt"] := by
  have opens : letterAndByte.store.opened (letterAndByte.session.resolve ["a.txt"]) .utf8 =
      .ok (["work", "a.txt"], ⟨#[120]⟩, 420) := by
    decide
  have merged : Action.mergedText {} letterAndByte.store letterAndByte.session mixedSources =
      .ok "x\nx\n" := by
    decide
  have path : letterAndByte.session.resolve ["a.txt"] = "/work/a.txt" := by decide
  obtain ⟨store, place, old, mode, bytes, ran, file, encoded, _, back, kept⟩ :=
    merge_reads_before_writing (Statement.merge_succeeded_iff.mpr
      ⟨_, _, merged, Store.writeText_of_opened opens _⟩)
  have reports : mixedSources.filterMap (Action.sourceReport? {} letterAndByte.store
      letterAndByte.session) =
        [⟨.warning, "File \"gone\" does not exist, skipping.", some "gone"⟩,
         ⟨.error, "Cannot read file \"b.txt\": 'utf-8' codec can't decode byte 0xff in " ++
            "position 0: invalid start byte", some "b.txt"⟩] := by
    decide +kernel
  rw [reports] at ran
  rw [← Action.mergedText_eq merged, Store.encodeText_ofString] at encoded
  have written : "x\nx\n".toUTF8 = ⟨#[120, 10, 120, 10]⟩ := by decide
  obtain rfl := Except.ok.inj encoded
  have here : letterAndByte.store.target (letterAndByte.session.resolve ["a.txt"]) =
      .ok (["work", "a.txt"], ⟨#[120]⟩, 420) := by
    decide
  rw [here] at file
  obtain rfl : ["work", "a.txt"] = place := congrArg Prod.fst (Except.ok.inj file)
  refine ⟨store, ran, ?_, kept _ (by decide)⟩
  rw [← path, back, written]

end FileQuery
