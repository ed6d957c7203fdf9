import FileQuery.Proofs.Execution.Proper
import FileQuery.Proofs.Execution.Returned
import FileQuery.Proofs.Path.Spelling
import FileQuery.Proofs.Store.Copied
import FileQuery.Proofs.Store.Moved

/-! Where transfers of single entries land. The new path is put together from the target and what the
name is called last as it is spelled, so it is the one below the target that the resolved name is
called just if the spelling ends in a clean name; then a transfer that succeeds lands there, and the
spelling makes no other difference (`transfer_lands`). -/
set_option autoImplicit false
namespace FileQuery

open Session (lastName)

variable {settings : Settings} {execute? : Option (String → World → Ran)} {mode : Transfer}
  {kind : Kind} {name name' target : String} {w w' : World}

namespace Action

theorem perform_transfer (settings : Settings) (execute? : Option (String → World → Ran))
    (single : name ≠ wildcard) :
    perform settings execute? (.transfer mode kind name target) = transferWork mode kind target name := by
  have work : perform settings execute? (.transfer mode kind name target) =
      forTargets kind name (transferWork mode kind target) := rfl
  rw [work, forTargets, if_pos single]

theorem on_transferWork (mode : Transfer) (kind : Kind) (target name : String) {r : Run} :
    (transferWork mode kind target name).on r =
      if r.store.holds (r.session.resolve [name]) (some kind) then
        match transferChange mode kind (r.session.resolve [name]) (destination r.session target name)
            r.store with
        | (.ok _, s) => (.ok (), { r with store := s }.reported .success
            (kind.label ++ " \"" ++ name ++ "\" " ++ mode.done ++ " to \"" ++ target ++ "\".")
            (some name))
        | (.error f, s) => (.error (.store f), { r with store := s })
      else (.ok (), r.reported .error (kind.label ++ " \"" ++ name ++ "\" does not exist.")
        (some name)) := by
  simp only [transferWork, on_bind, on_resolve, on_present]
  cases r.store.holds (r.session.resolve [name]) (some kind) with
  | false => rfl
  | true =>
      simp only [if_true, on_bind, on_resolve]
      rw [on_change, destination]
      rcases transferChange mode kind (r.session.resolve [name])
        (r.session.resolve [target, String.ofList (Path.baseName name.toList)]) r.store with ⟨f | _, s⟩ <;>
        rfl

theorem of_transferWork_ok {r r' : Run} (done : (transferWork mode kind target name).on r = (.ok (), r')) :
    transferChange mode kind (r.session.resolve [name]) (destination r.session target name) r.store =
        (.ok (), r'.store) ∨
      ∃ message item, r' = r.reported .error message item := by
  rw [on_transferWork] at done
  split at done
  · split at done
    next changed =>
      cases done
      exact .inl changed
    next => cases done
  · cases done
    exact .inr ⟨_, _, rfl⟩

theorem of_transferWork_error {f : Fault} {r r' : Run}
    (done : (transferWork mode kind target name).on r = (.error f, r')) : r'.events = r.events := by
  rw [on_transferWork] at done
  split at done
  · split at done <;> cases done
    rfl
  · cases done

end Action

/-- How a run ends: the levels of what is said, if there is an outcome, and the store and the session
that are left. -/
def Ran.ending (ran : Ran) : Option (List Level) × Store × Session :=
  (ran.1.toOption.map fun o => o.events.map (·.level), ran.2.store, ran.2.session)

theorem Ran.success_of_ending {ran : Ran} {levels : List Level} (ends : ran.ending.1 = some levels)
    (success : .success ∈ levels) :
    ∃ o w', ran = (.ok o, w') ∧ ∃ e ∈ o.events, e.level = .success := by
  obtain ⟨outcome, w'⟩ := ran
  cases outcome with
  | error f => cases ends
  | ok o =>
      obtain rfl : o.events.map (·.level) = levels := Option.some.inj ends
      obtain ⟨e, member, level⟩ := List.mem_map.mp success
      exact ⟨o, w', rfl, e, member, level⟩

namespace Statement

theorem ending_eq {s s' : Statement} {x : Except Fault Unit} {r r' : Run}
    (ends : (Action.perform settings execute? s).on { toWorld := w } = (x, r))
    (ends' : (Action.perform settings execute? s').on { toWorld := w } = (x, r'))
    (levels : r.events.map (·.level) = r'.events.map (·.level)) (store : r.store = r'.store)
    (session : r.session = r'.session) :
    (run settings execute? s w).ending = (run settings execute? s' w).ending := by
  have left := run_eq settings execute? s w
  have right := run_eq settings execute? s' w
  rw [ends] at left
  rw [ends'] at right
  cases x with
  | ok _ =>
      rw [left, right]
      simp [Ran.ending, outcome, Except.toOption, levels, store, session]
  | error f =>
      rcases left with ⟨stray, left⟩ | ⟨calm, _, left⟩ <;>
        rcases right with ⟨stray', right⟩ | ⟨calm', _, right⟩
      · rw [left, right]
        simp [Ran.ending, Except.toOption, store, session]
      · exact absurd stray calm'
      · exact absurd stray' calm
      · rw [left, right]
        simp [Ran.ending, outcome, Except.toOption, Run.reported, levels, store, session]

/-- Names that are resolved to the same path and are called the same are transferred alike. -/
theorem ending_transfer (single : name ≠ wildcard) (single' : name' ≠ wildcard)
    (same : w.session.resolve [name'] = w.session.resolve [name]) (called : lastName name' = lastName name) :
    (run settings execute? (.transfer mode kind name' target) w).ending =
      (run settings execute? (.transfer mode kind name target) w).ending := by
  have goes : Action.destination w.session target name' = Action.destination w.session target name :=
    congrArg (fun last => w.session.resolve [target, last]) called
  have ends := Action.on_transferWork (r := { toWorld := w }) mode kind target name
  have ends' := Action.on_transferWork (r := { toWorld := w }) mode kind target name'
  rw [← Action.perform_transfer settings execute? single] at ends
  rw [← Action.perform_transfer settings execute? single', same, goes] at ends'
  dsimp only at ends ends'
  cases held : w.store.holds (w.session.resolve [name]) (some kind) with
  | false =>
      rw [held, if_neg (by simp)] at ends ends'
      exact ending_eq ends' ends rfl rfl rfl
  | true =>
      rw [held, if_pos rfl] at ends ends'
      rcases changed : Action.transferChange mode kind (w.session.resolve [name])
        (Action.destination w.session target name) w.store with ⟨f | _, s⟩ <;>
        rw [changed] at ends ends'
      · exact ending_eq ends' ends rfl rfl rfl
      · exact ending_eq ends' ends rfl rfl rfl

theorem of_transferred {o : Outcome} (single : name ≠ wildcard)
    (ran : run settings execute? (.transfer mode kind name target) w = (.ok o, w'))
    (success : ∃ e ∈ o.events, e.level = .success) :
    Action.transferChange mode kind (w.session.resolve [name])
      (w.session.resolve [target, lastName name]) w.store = (.ok (), w'.store) := by
  obtain ⟨e, member, level⟩ := success
  rcases run_eq_ok_cases ran with ⟨r, done, rfl, rfl⟩ | ⟨f, r, code, done, _, rfl, rfl⟩ <;>
    rw [Action.perform_transfer settings execute? single] at done
  · rcases Action.of_transferWork_ok done with changed | ⟨message, item, rfl⟩
    · exact changed
    · obtain rfl := List.mem_singleton.mp member
      cases level
  · -- all that is said is what has stopped the work
    have quiet : r.events = [] := Action.of_transferWork_error done
    have member : e ∈ r.events ++ [{ level := .error, message := report f, item := none }] := member
    rw [quiet] at member
    obtain rfl := List.mem_singleton.mp member
    cases level

end Statement

/-- Where an entry is after a transfer from a path to a name in a folder. What was moved stands at the
name with all that was below it, and nothing else has changed; a copied file can be read from there, and
still from its source; a copied folder is there, its source still is, and the copy mirrors the source if
nothing was in the way, as where nothing stood. -/
def Landed (s t : Store) (source folder name : String) : Transfer → Kind → Prop
  | .move, _ => ∃ p p' e mode, s.stat false source = .ok (p, e) ∧
      s.stat true folder = .ok (p', .folder mode) ∧ Store.Relocated s t p (p' ++ [name]) ∧
      ∀ mode', t.stat true folder = .ok (p', .folder mode') →
        t.stat false (Store.joinName folder name) = .ok (p' ++ [name], e)
  | .copy, .file => ∃ bytes, s.bytesAt source = .ok bytes ∧
      t.bytesAt (Store.joinName folder name) = .ok bytes ∧ t.bytesAt source = .ok bytes
  | .copy, .folder => t.isFolder source = true ∧ ∃ p mode,
      t.stat true (Store.joinName folder name) = .ok (p, .folder mode) ∧
      (s.get? p = none → Store.Open s source p) ∧
      (Store.Open s source p → Store.Mirrored s source t (Store.joinName folder name) p)

theorem landed {s t : Store} {source folder name : String} (sound : s.Sound)
    (canonical : Path.Canonical source.toList) (canonical' : Path.Canonical folder.toList)
    (clean : Path.Clean name.toList)
    (changed : Action.transferChange mode kind source (Store.joinName folder name) s = (.ok (), t)) :
    Landed s t source folder name mode kind := by
  cases mode with
  | move => exact Store.relocated_of_move sound canonical canonical' clean changed
  | copy =>
      cases kind with
      | file => exact Store.bytesAt_of_copyFile changed
      | folder =>
          have copied : Store.copyTree source (Store.joinName folder name) s = (.ok (), t) := changed
          have isFolder := Store.isFolder_of_copyTree (congrArg Prod.fst copied)
          obtain ⟨p, mode, ends, mirrored⟩ := Store.mirrored_copyTree sound canonical
            (Store.canonical_joinName canonical' clean) copied
          exact ⟨(Store.keeps_of_copyTree copied).isFolder isFolder, p, mode, ends,
            sound.open_of_vacant, mirrored⟩

/-- A transfer of one entry goes to the name below the target that the resolved name has last, if it has
one, just if the spelling ends in a clean name. Then, if it reports a success, the entry lands there, and
any other such spelling that is resolved to the same path ends alike. -/
theorem transfer_lands (settings : Settings) (execute? : Option (String → World → Ran)) {w : World}
    (proper : w.Proper) (mode : Transfer) (kind : Kind) {name : String} (single : name ≠ wildcard)
    (target : String) :
    (lastName (w.session.resolve [name]) ≠ "" →
      (Action.destination w.session target name =
          w.session.resolve [target, lastName (w.session.resolve [name])] ↔
        Path.Clean (Path.baseName name.toList))) ∧
      (Path.Clean (Path.baseName name.toList) →
        Action.destination w.session target name = Store.joinName (w.session.resolve [target])
            (lastName (w.session.resolve [name])) ∧
        (∀ o w', Statement.run settings execute? (.transfer mode kind name target) w = (.ok o, w') →
          (∃ e ∈ o.events, e.level = .success) →
          Landed w.store w'.store (w.session.resolve [name]) (w.session.resolve [target])
            (lastName (w.session.resolve [name])) mode kind) ∧
        ∀ name', name' ≠ wildcard → w.session.resolve [name'] = w.session.resolve [name] →
          Path.Clean (Path.baseName name'.toList) →
          (Statement.run settings execute? (.transfer mode kind name' target) w).ending =
            (Statement.run settings execute? (.transfer mode kind name target) w).ending) := by
  obtain ⟨normal, sound⟩ := proper
  refine ⟨fun some => normal.resolve_last_iff target some, fun clean => ?_⟩
  have last := normal.lastName_resolve clean
  have clean' : Path.Clean (lastName name).toList := by rwa [lastName, String.toList_ofList]
  have below := normal.resolve_below clean' target
  rw [last]
  refine ⟨below, fun o w' ran success => ?_, fun name' single' same clean' => ?_⟩
  · have changed := Statement.of_transferred single ran success
    rw [below] at changed
    exact landed sound (normal.canonical_resolve _) (normal.canonical_resolve _) clean' changed
  · refine Statement.ending_transfer single single' same ?_
    rw [← normal.lastName_resolve clean', same, normal.lastName_resolve clean]

/-- A folder with a file in it, and an empty folder beside it. -/
def besideEmpty : World where
  store := { now := ⟨0⟩, entries := [(["work", "docs", "a.txt"], .file ⟨#[120]⟩ 420 ⟨0⟩), (["work", "docs"], .folder 493),
    (["work", "empty"], .folder 493), (["work"], .folder 493), ([], .folder 493)] }
  session := .start ""

theorem transfer_lands_in_empty :
    Action.destination besideEmpty.session "empty" "./docs" = "/work/empty/docs" ∧
      Landed besideEmpty.store
        (Statement.run {} none (.transfer .move .folder "./docs" "empty") besideEmpty).2.store
        "/work/docs" "/work/empty" "docs" .move .folder ∧
      (Statement.run {} none (.transfer .move .folder "/work/docs" "empty") besideEmpty).ending =
        (Statement.run {} none (.transfer .move .folder "./docs" "empty") besideEmpty).ending := by
  have proper : besideEmpty.Proper := World.proper_start (Store.sound_of_entries (by decide)) ""
  have source : besideEmpty.session.resolve ["./docs"] = "/work/docs" := by decide
  have folder : besideEmpty.session.resolve ["empty"] = "/work/empty" := by decide
  have last : lastName "/work/docs" = "docs" := by decide
  have single : "./docs" ≠ wildcard := by decide
  have clean : Path.Clean (Path.baseName "./docs".toList) := by decide
  obtain ⟨goes, lands⟩ := transfer_lands {} none proper .move .folder single "empty"
  obtain ⟨_, landed, alike⟩ := lands clean
  rw [source, last] at goes
  rw [source, folder, last] at landed
  have below : besideEmpty.session.resolve ["empty", "docs"] = "/work/empty/docs" := by decide
  refine ⟨below ▸ (goes (by decide)).mpr clean, ?_,
    alike "/work/docs" (by decide) (by decide) (by decide)⟩
  have ends : (Statement.run {} none (.transfer .move .folder "./docs" "empty") besideEmpty).ending.1 =
      some [.success] := by decide
  obtain ⟨o, w', ran, success⟩ := Ran.success_of_ending ends (List.mem_singleton_self _)
  rw [ran]
  exact landed o w' ran success

/-- With a slash behind it the name of the folder is taken for an empty one: the folder takes the place
of the target, and is not below it. -/
theorem trailing_slash_replaces_target :
    (Statement.run {} none (.transfer .move .folder "docs/" "empty") besideEmpty).ending.1 =
        some [.success] ∧
      besideEmpty.session.resolve ["docs/"] = "/work/docs" ∧
      besideEmpty.store.isFolder "/work/docs" = true ∧
      (Statement.run {} none (.transfer .move .folder "docs/" "empty")
        besideEmpty).2.store.isPresent "/work/empty/docs" = false ∧
      (Statement.run {} none (.transfer .move .folder "docs/" "empty")
        besideEmpty).2.store.isFile "/work/empty/a.txt" = true := by
  decide +kernel

end FileQuery
