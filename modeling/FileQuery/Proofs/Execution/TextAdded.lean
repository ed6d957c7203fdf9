import FileQuery.Proofs.Execution.TextFile
import FileQuery.Proofs.Statement.Sound

/-! Lines that add a text to a file. The text is taken as it stands between its quotes, and its bytes
come behind those of the file; but the one text that is the wildcard is refused with the names that
are. -/
set_option autoImplicit false
namespace FileQuery

/-- The line that adds what is between its last quotes to a file. -/
def updateLine (name text : String) : String := "UPDATE FILE \"" ++ name ++ "\" ADD \"" ++ text ++ "\""

def appended (name : String) : Event :=
  { level := .success, message := "Text appended to file \"" ++ name ++ "\"." }

variable {settings : Settings} {w : World} {name text : String}

namespace Statement

theorem toList_updateLine (name text : String) : (updateLine name text).toList =
    "UPDATE".toList ++ ([' '] ++ ("FILE".toList ++ ([' '] ++ ('"' :: (name.toList ++ ['"']) ++
      ([' '] ++ ("ADD".toList ++ ([' '] ++ '"' :: (text.toList ++ ['"'])))))))) := by
  have verb : "UPDATE FILE \"".toList = "UPDATE".toList ++ ' ' :: ("FILE".toList ++ [' ', '"']) := by
    decide
  have behind : "\" ADD \"".toList = '"' :: ' ' :: ("ADD".toList ++ [' ', '"']) := by decide
  have last : "\"".toList = ['"'] := by decide
  unfold updateLine
  simp only [String.toList_append, verb, behind, last, List.append_assoc,
    List.cons_append, List.nil_append]

theorem parse_updateLine (named : Named name) (enclosed : Token.Enclosed '"' name.toList)
    (noStar : text ≠ wildcard) (enclosed' : Token.Enclosed '"' text.toList) :
    parse (updateLine name text) = .append name text := by
  have gap : Text.Gap [' '] := by decide
  have verb := typed_keyword "UPDATE" (by decide)
  have file := typed_keyword "FILE" (by decide)
  have behind := typed_keyword "ADD" (by decide)
  have rendered := Rendered.more verb gap (.more file gap (.more (typed_quoted enclosed) gap
    (.more behind gap (.last (typed_quoted enclosed')))))
  refine parse_of_rendered (.append name text) ⟨named, noStar⟩ ?_
  rw [toList_updateLine]
  exact rendered

/-- No line adds a text to a file that has no name, or a text that is the wildcard. -/
theorem named_of_parse_append {line : String} (read : parse line = .append name text) :
    Named name ∧ text ≠ wildcard := by
  rw [parse] at read
  cases found : read? (Text.trim line.toList) with
  | error reason =>
      rw [found] at read
      cases read
  | ok s =>
      rw [found] at read
      obtain rfl : s = .append name text := read
      exact printable_of_read? found

end Statement

namespace Action

theorem on_appendFile (settings : Settings) (name text : String) (r : Run) :
    (appendFile name text settings).on r =
      (finish (Store.appendText (r.session.resolve [name]) (Text.CodePoints.ofString text)
        settings.encoding) (appended name).message).on r := by
  simp only [appendFile, appended, on_bind, on_resolve, finish]

end Action

theorem execute_updateLine {store : Store} (named : Named name)
    (enclosed : Token.Enclosed '"' name.toList) (noStar : text ≠ wildcard)
    (enclosed' : Token.Enclosed '"' text.toList)
    (done : Store.appendText (w.session.resolve [name]) (Text.CodePoints.ofString text)
      settings.encoding w.store = (.ok (), store)) :
    execute settings (updateLine name text) w =
      .reporting (.append name text) (appended name) store w := by
  rw [execute, Statement.executeBelow_eq_run,
    Statement.parse_updateLine named enclosed noStar enclosed']
  refine Statement.run_of_reported ?_
  have added : (Action.appendFile name text settings).on { toWorld := w } = _ :=
    Action.on_appendFile settings name text { toWorld := w }
  rw [Action.on_finish, done] at added
  exact added

/-- A line that adds a text to a file in UTF-8 reports one success, puts the bytes of the text behind
those of the file and changes nothing else, exactly when the file is called by a name and the text is
not the wildcard. -/
theorem text_added_iff (utf8 : settings.encoding = .utf8) {old : ByteArray}
    (enclosed : Token.Enclosed '"' name.toList) (enclosed' : Token.Enclosed '"' text.toList)
    (held : w.store.bytesAt (w.session.resolve [name]) = .ok old) :
    (∃ store place mode,
      execute settings (updateLine name text) w =
        .reporting (.append name text) (appended name) store w ∧
      w.store.target (w.session.resolve [name]) = .ok (place, old, mode) ∧
      store = w.store.putBytes place mode (old ++ text.toUTF8) ∧
      store.bytesAt (w.session.resolve [name]) = .ok (old ++ text.toUTF8) ∧
      ∀ q ≠ place, store.get? q = w.store.get? q) ↔
    Named name ∧ text ≠ wildcard := by
  constructor
  · rintro ⟨store, place, mode, ran, _⟩
    rw [execute, Statement.executeBelow_eq_run] at ran
    exact Statement.named_of_parse_append (Statement.statement_of_run ran).symm
  · rintro ⟨named, noStar⟩
    obtain ⟨place, mode, file, done⟩ := Store.appendText_of_held held text
    rw [← utf8] at done
    refine ⟨_, place, mode, execute_updateLine named enclosed noStar enclosed' done, file, rfl,
      Store.bytesAt_putBytes file, fun q apart => ?_⟩
    rw [Store.putBytes, Store.get?_put, if_neg apart]

/-- A star is added with other characters around it. -/
theorem stars_added : ∃ store, execute {} (updateLine "a.txt" "**") oneLetter =
      .reporting (.append "a.txt" "**") (appended "a.txt") store oneLetter ∧
    store.bytesAt "/work/a.txt" = .ok ⟨#[120, 42, 42]⟩ := by
  have path : oneLetter.session.resolve ["a.txt"] = "/work/a.txt" := by decide
  have stars : Token.Enclosed '"' "**".toList := by
    have closed : Token.closeString '"' "**\"".toList = some ("**".toList, []) := by decide
    exact (Token.enclosed_of_closeString closed).2
  have held : oneLetter.store.bytesAt (oneLetter.session.resolve ["a.txt"]) = .ok ⟨#[120]⟩ := by
    decide
  have utf8 : ({} : Settings).encoding = .utf8 := rfl
  have bytes : ⟨#[120]⟩ ++ "**".toUTF8 = ⟨#[120, 42, 42]⟩ := by decide
  obtain ⟨store, _, _, ran, _, _, back, _⟩ :=
    (text_added_iff utf8 enclosed_letter_name stars held).mpr
      ⟨⟨by decide, by decide⟩, by decide⟩
  exact ⟨store, ran, by rw [← path, back, bytes]⟩

/-- A star alone can stand between double quotes, but is not added. -/
theorem star_not_added :
    Token.Enclosed '"' "*".toList ∧ oneLetter.store.bytesAt "/work/a.txt" = .ok ⟨#[120]⟩ ∧
      ((execute {} (updateLine "a.txt" "*") oneLetter).1.toOption.map
          fun o => o.events.map Event.level) = some [.error] ∧
      (execute {} (updateLine "a.txt" "*") oneLetter).2.store.bytesAt "/work/a.txt" =
        .ok ⟨#[120]⟩ := by
  have closed : Token.closeString '"' "*\"".toList = some ("*".toList, []) := by decide +kernel
  refine ⟨(Token.enclosed_of_closeString closed).2, by decide +kernel, ?_, by decide +kernel⟩
  decide +kernel

end FileQuery
