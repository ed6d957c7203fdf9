import FileQuery.Proofs.Execution.Direct
import FileQuery.Proofs.Script
import FileQuery.Proofs.Store.TextBack

/-! Scripts that are joined from lines. Whatever loads or runs such a script runs what its text states
at every break in it, which are the statements of the lines just when none is cut but at its ends. -/
set_option autoImplicit false
namespace FileQuery

open Statement (executeBelow parse ranScript)

section
variable {lines : List String} (noReturn : ∀ l ∈ lines, '\r' ∉ l.toList)
include noReturn

/-- A script has no break but line feeds between its lines that reading would change. -/
theorem readText_scriptOf {s : Store} {path : String} {encoding : Store.Encoding} {bytes : ByteArray}
    (held : s.bytesAt path = .ok bytes)
    (decodes : encoding.read bytes = .ok (scriptOf lines)) :
    s.readText path encoding = .ok (scriptOf lines) := by
  rw [Store.readText_of_read held decodes,
    Store.unified_eq_self_iff.mpr (return_not_mem_scriptOf noReturn)]

theorem executeBelow_load_scriptOf {settings : Settings} {limit : LoadLimit} {n : Nat}
    {line name : String} {w : World} {bytes : ByteArray} (loads : parse line = .load name)
    (limited : settings.loadLimit = .ok limit)
    (held : w.store.bytesAt (w.session.resolve [name]) = .ok bytes)
    (decodes : settings.encoding.read bytes = .ok (scriptOf lines)) :
    executeBelow settings (n + 1) line w = ranScript name (scriptOf lines)
      (runEach (announced (executeBelow settings n)) (scriptLines (scriptOf lines)) w) := by
  have read := readText_scriptOf noReturn held decodes
  have isFile := Store.isFile_of_readText read
  rw [Statement.executeBelow_eq_run, loads]
  exact Statement.run_load_read isFile limited Statement.stray_of_executeBelow read

theorem answer_run_scriptOf {p : CommandLine.Process} {path : String}
    (held : p.store.bytesAt path = .ok (scriptOf lines).toUTF8) (s : CommandLine.Surroundings)
    (folder : Option String) (json : Bool) :
    p.answer s (.run path folder json) =
      p.answer s (.exec (scriptLines (scriptOf lines)) folder json) := by
  have read := readText_scriptOf noReturn held
    (Store.Encoding.readsBack_codec .utf8 _ _ (Store.encodeText_ofString true _))
  have same : (CommandLine.Work.runScript s path folder json).run.run p =
      (CommandLine.Work.runLines s (scriptLines (scriptOf lines)) folder json).run.run p :=
    CommandLine.Work.run_bind (CommandLine.Work.run_readScript read)
  rw [CommandLine.Process.answer, CommandLine.Process.answer, CommandLine.Process.report, same]
  rfl

end

/-- A script that is joined from lines is run as what its text states, whether it is loaded or given to
the program. That is the same as to run its lines one by one, each trimmed and notes left out, just
when every line is whole; other than line feeds there are breaks that cut a line in two. -/
theorem script_states_lines_iff {lines : List String} (noReturn : ∀ l ∈ lines, '\r' ∉ l.toList) :
    (∀ (settings : Settings) (limit : LoadLimit) (n : Nat) (line name : String) (w : World)
        (bytes : ByteArray), parse line = .load name → settings.loadLimit = .ok limit →
      w.store.bytesAt (w.session.resolve [name]) = .ok bytes →
      settings.encoding.read bytes = .ok (scriptOf lines) →
      executeBelow settings (n + 1) line w = ranScript name (scriptOf lines)
        (runEach (announced (executeBelow settings n)) (scriptLines (scriptOf lines)) w)) ∧
    (∀ (p : CommandLine.Process) (s : CommandLine.Surroundings) (path : String)
        (folder : Option String) (json : Bool),
      p.store.bytesAt path = .ok (scriptOf lines).toUTF8 →
      p.answer s (.run path folder json) =
        p.answer s (.exec (scriptLines (scriptOf lines)) folder json)) ∧
    (scriptLines (scriptOf lines) = statementsOf lines ↔ ∀ l ∈ lines, Whole l.toList) :=
  ⟨fun _ _ _ _ _ _ _ loads limited held decodes =>
      executeBelow_load_scriptOf noReturn loads limited held decodes,
    fun _ s _ folder json held => answer_run_scriptOf noReturn held s folder json,
    scriptLines_scriptOf_iff noReturn⟩

theorem note_and_drop_state_drop :
    executeBelow {} 1 "LOAD \"s.fql\"" noteAndDrop = ranScript "s.fql" "// up\n DROP"
        (runEach (announced (executeBelow {} 0)) ["DROP"] noteAndDrop) ∧
      scriptLines "// up\n DROP" = ["DROP"] := by
  have noReturn : ∀ l ∈ ["// up", " DROP"], '\r' ∉ l.toList := by decide
  obtain ⟨loaded, _, states⟩ := script_states_lines_iff noReturn
  have whole : ∀ l ∈ ["// up", " DROP"], Whole l.toList := by decide +kernel
  have script : scriptOf ["// up", " DROP"] = "// up\n DROP" := by decide
  have drop : statementsOf ["// up", " DROP"] = ["DROP"] := by decide +kernel
  have lines := states.mpr whole
  rw [script, drop] at lines
  have held : noteAndDrop.store.bytesAt (noteAndDrop.session.resolve ["s.fql"]) =
    .ok "// up\n DROP".toUTF8 := by decide +kernel
  have decodes := Store.Encoding.readsBack_codec .utf8 "// up\n DROP" _
    (Store.encodeText_ofString true "// up\n DROP")
  have ran := loaded {} ⟨8, "8"⟩ 0 "LOAD \"s.fql\"" "s.fql" noteAndDrop _ (by decide +kernel) rfl held
  rw [script, lines] at ran
  exact ⟨ran decodes, lines⟩

/-- A separator of lines in a name cuts the one statement of a script in two. -/
theorem name_cut_in_two :
    scriptLines (scriptOf ["CREATE FILE \"a\u2028b\""]) = ["CREATE FILE \"a", "b\""] ∧
      statementsOf ["CREATE FILE \"a\u2028b\""] = ["CREATE FILE \"a\u2028b\""] ∧
      parse "CREATE FILE \"a\u2028b\"" = .create .file "a\u2028b" := by
  exact ⟨by decide +kernel, by decide +kernel, by decide +kernel⟩

end FileQuery
