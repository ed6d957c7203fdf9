import FileQuery.Codec.Labels
import FileQuery.Proofs.Execution.Batch
import FileQuery.Proofs.Execution.Tree
import FileQuery.Proofs.Execution.Written
import FileQuery.Proofs.Store.TextBack
import FileQuery.Proofs.Text.Escape

/-! Lines that write a text to a file and that read a file. A line that writes a text, however the
text is spelled, puts the bytes of that text into its file and does nothing else. -/
set_option autoImplicit false
namespace FileQuery

/-- The line that writes what is between its last quotes to a file. -/
def writeLine (name spelled : String) : String :=
  "WRITE FILE \"" ++ name ++ "\" TO \"" ++ spelled ++ "\""

def readLine (name : String) : String := "READ FILE \"" ++ name ++ "\""

namespace Statement

/-- A rendering of a statement with no blanks around it is read as that statement. -/
theorem parse_of_rendered {s : Statement} {xs : List Symbol} {line : String} (form : Form s xs)
    (printable : s.Printable) (rendered : Rendered xs line.toList) : parse line = s := by
  have sound := form.sound printable
  obtain ⟨ts, scans, reads⟩ := rendered.reads sound []
  obtain ⟨rest, _, ran⟩ := takes_readAll form printable ts reads
  have read := parse_of_scans (rendered.trimmed sound).2 scans ran
  rwa [String.ofList_toList] at read

variable {name spelled : String}

theorem typed_keyword (name : String) (own : Token.Spells name name.toList) :
    (Symbol.keyword name).Typed name.toList := own

theorem typed_quoted {value : String} (enclosed : Token.Enclosed '"' value.toList) :
    (Symbol.quoted value).Typed ('"' :: (value.toList ++ ['"'])) :=
  ⟨'"', by decide, enclosed, rfl⟩

theorem toList_writeLine (name spelled : String) : (writeLine name spelled).toList =
    "WRITE".toList ++ ([' '] ++ ("FILE".toList ++ ([' '] ++ ('"' :: (name.toList ++ ['"']) ++
      ([' '] ++ ("TO".toList ++ ([' '] ++ '"' :: (spelled.toList ++ ['"'])))))))) := by
  have verb : "WRITE FILE \"".toList = "WRITE".toList ++ ' ' :: ("FILE".toList ++ [' ', '"']) := by
    decide
  have toward : "\" TO \"".toList = '"' :: ' ' :: ("TO".toList ++ [' ', '"']) := by decide
  have last : "\"".toList = ['"'] := by decide
  unfold writeLine
  simp only [String.toList_append, verb, toward, last, List.append_assoc,
    List.cons_append, List.nil_append]

theorem parse_writeLine (named : Named name) (enclosed : Token.Enclosed '"' name.toList)
    (noStar : spelled ≠ wildcard) (enclosed' : Token.Enclosed '"' spelled.toList) :
    parse (writeLine name spelled) = .write name spelled := by
  have gap : Text.Gap [' '] := by decide
  have verb := typed_keyword "WRITE" (by decide)
  have file := typed_keyword "FILE" (by decide)
  have toward := typed_keyword "TO" (by decide)
  have rendered := Rendered.more verb gap (.more file gap (.more (typed_quoted enclosed) gap
    (.more toward gap (.last (typed_quoted enclosed')))))
  refine parse_of_rendered (.write name spelled) ⟨named, noStar⟩ ?_
  rw [toList_writeLine]
  exact rendered

theorem toList_readLine (name : String) : (readLine name).toList =
    "READ".toList ++ ([' '] ++ ("FILE".toList ++ ([' '] ++ '"' :: (name.toList ++ ['"'])))) := by
  have verb : "READ FILE \"".toList = "READ".toList ++ ' ' :: ("FILE".toList ++ [' ', '"']) := by
    decide
  have last : "\"".toList = ['"'] := by decide
  unfold readLine
  simp only [String.toList_append, verb, last, List.append_assoc, List.cons_append,
    List.nil_append]

theorem parse_readLine (filled : name ≠ "") (enclosed : Token.Enclosed '"' name.toList) :
    parse (readLine name) = .read name := by
  have gap : Text.Gap [' '] := by decide
  have verb := typed_keyword "READ" (by decide)
  have file := typed_keyword "FILE" (by decide)
  have rendered := Rendered.more verb gap (.more file gap (.last (typed_quoted enclosed)))
  refine parse_of_rendered (.read name) filled ?_
  rw [toList_readLine]
  exact rendered

end Statement

namespace Action

variable {settings : Settings} {r : Run}

theorem on_writeFile_of_decoded {name spelled : String} {points : Text.CodePoints}
    (decoded : Text.decodeEscapes spelled.toList = .ok points) :
    (writeFile name spelled settings).on r =
      (finish (Store.writeText (r.session.resolve [name]) points settings.encoding)
        ("File \"" ++ name ++ "\" overwritten.")).on r := by
  simp only [writeFile, decoded, on_bind, on_pure, on_resolve, finish]

theorem on_readFile_of_read {name text : String} (noStar : name ≠ wildcard)
    (read : r.store.readText (r.session.resolve [name]) settings.encoding = .ok text) :
    (readFile name settings).on r = (.ok (), r.reported .info
      ("Contents of \"" ++ name ++ "\":\n" ++ text) (some name)) := by
  have isFile := Store.isFile_of_readText read
  have held : r.store.holds (r.session.resolve [name]) (some .file) = true := isFile
  rw [readFile, forTargets, if_pos noStar]
  simp only [on_bind, on_resolve, on_present, held, if_true, on_look, read, mapError_ok,
    on_emit]

end Action

/-- What a line gives that changes the store and reports one event on it. -/
def Ran.reporting (s : Statement) (e : Event) (store : Store) (w : World) : Ran :=
  (.ok { statement := s, events := [e] },
   { w with store, log := w.log ++ [{ level := .ofEvent e.level, message := e.message }] })

def overwritten (name : String) : Event :=
  { level := .success, message := "File \"" ++ name ++ "\" overwritten." }

def contentsOf (name text : String) : Event :=
  { level := .info, message := "Contents of \"" ++ name ++ "\":\n" ++ text, item := some name }

section
variable {settings : Settings} {w : World} {store : Store} {name spelled text : String}

theorem Statement.run_of_reported {execute? : Option (String → World → Ran)} {s : Statement}
    {e : Event} (works : (Action.perform settings execute? s).on { toWorld := w } =
      (.ok (), Run.reported { toWorld := { w with store } } e.level e.message e.item)) :
    run settings execute? s w = .reporting s e store w := by
  rw [run_of_ok works]
  rfl

theorem execute_writeLine {points : Text.CodePoints} (named : Named name)
    (enclosed : Token.Enclosed '"' name.toList) (noStar : spelled ≠ wildcard)
    (enclosed' : Token.Enclosed '"' spelled.toList)
    (decoded : Text.decodeEscapes spelled.toList = .ok points)
    (done : Store.writeText (w.session.resolve [name]) points settings.encoding w.store =
      (.ok (), store)) :
    execute settings (writeLine name spelled) w =
      .reporting (.write name spelled) (overwritten name) store w := by
  rw [execute, Statement.executeBelow_eq_run,
    Statement.parse_writeLine named enclosed noStar enclosed']
  refine Statement.run_of_reported ?_
  have written : (Action.writeFile name spelled settings).on { toWorld := w } = _ :=
    Action.on_writeFile_of_decoded decoded
  rw [Action.on_finish, done] at written
  exact written

theorem execute_readLine (named : Named name) (enclosed : Token.Enclosed '"' name.toList)
    (read : w.store.readText (w.session.resolve [name]) settings.encoding = .ok text) :
    execute settings (readLine name) w = .reporting (.read name) (contentsOf name text) w.store w := by
  rw [execute, Statement.executeBelow_eq_run, Statement.parse_readLine named.1 enclosed]
  refine Statement.run_of_reported ?_
  exact Action.on_readFile_of_read (r := { toWorld := w }) named.2 read

end

theorem enclosed_letter_name : Token.Enclosed '"' "a.txt".toList := by
  have closed : Token.closeString '"' "a.txt\"".toList = some ("a.txt".toList, []) := by
    simp [Token.closeString]
  exact (Token.enclosed_of_closeString closed).2

theorem oneLetter_takes (text : String) : ∃ store,
    Store.writeText (oneLetter.session.resolve ["a.txt"]) (Text.CodePoints.ofString text)
      ({} : Settings).encoding oneLetter.store = (.ok (), store) := by
  have opens : oneLetter.store.opened (oneLetter.session.resolve ["a.txt"]) .utf8 =
    .ok (["work", "a.txt"], ⟨#[120]⟩, 420) := by decide
  exact ⟨_, Store.writeText_of_opened opens text⟩

/-- Every text can be written to every file that opens and takes it, whatever spells the text on the
line: the one event is a success, the file holds what its encoding writes for the text, and nothing else
changes. These are the bytes of the text just if the encoding writes the text as a whole, as all do that
are spelled out. -/
theorem text_written_exactly {settings : Settings} {w : World} {store : Store}
    {name text spelled : String} (named : Named name) (enclosed : Token.Enclosed '"' name.toList)
    (spells : Json.Spells text.toList spelled.toList) (noStar : spelled ≠ wildcard)
    (done : Store.writeText (w.session.resolve [name]) (Text.CodePoints.ofString text)
      settings.encoding w.store = (.ok (), store)) :
    execute settings (writeLine name spelled) w =
        .reporting (.write name spelled) (overwritten name) store w ∧
      ∃ place old mode bytes,
        w.store.target (w.session.resolve [name]) = .ok (place, old, mode) ∧
        Store.encodeText settings.encoding true (Text.CodePoints.ofString text) = .ok bytes ∧
        store.bytesAt (w.session.resolve [name]) = .ok bytes ∧
        (Store.encodeWhole settings.encoding (Text.CodePoints.ofString text) = .ok bytes ↔
          settings.encoding.WritesWhole (Text.CodePoints.ofString text)) ∧
        (∀ codec, settings.encoding = .codec codec →
          settings.encoding.WritesWhole (Text.CodePoints.ofString text)) ∧
        ∀ q ≠ place, store.get? q = w.store.get? q := by
  have decoded := Text.decodeEscapes_of_spells spells
  refine ⟨execute_writeLine named enclosed noStar spells.enclosed decoded done, ?_⟩
  obtain ⟨place, old, mode, bytes, file, encoded, rfl, back⟩ :=
    Store.Writing.bytesAt_of_done (x := ⟨w.session.resolve [name], .ofString text, false⟩) done
  rw [Store.Writing.kept, if_neg Bool.false_ne_true, ByteArray.empty_append] at back ⊢
  have encoded : Store.encodeText settings.encoding true (Text.CodePoints.ofString text) = .ok bytes :=
    encoded
  refine ⟨place, old, mode, bytes, file, encoded, back, ?_, ?_, fun q apart => ?_⟩
  · rw [Store.Encoding.WritesWhole, encoded]
    exact eq_comm
  · intro codec spelledOut
    rw [spelledOut]
    exact Store.Encoding.writesWhole_codec codec _
  · rw [Store.putBytes, Store.get?_put, if_neg apart]

theorem text_written_escaped :
    ∃ place old mode bytes,
      oneLetter.store.target "/work/a.txt" = .ok (place, old, mode) ∧
      Store.encodeWhole .utf8 (Text.CodePoints.ofString "\"\\\n😀") = .ok bytes ∧
      (execute {} (writeLine "a.txt" "\\\"\\\\\n\\ud83D\\uDe00") oneLetter).2.store.bytesAt
        "/work/a.txt" = .ok bytes ∧
      ∀ q ≠ place, (execute {} (writeLine "a.txt" "\\\"\\\\\n\\ud83D\\uDe00")
        oneLetter).2.store.get? q = oneLetter.store.get? q := by
  have high : Json.UnitDigits 0xD83D ['d', '8', '3', 'D'] :=
    .mk (.inl (by decide)) (.inl (by decide)) (.inl (by decide)) (.inr (by decide))
  have low : Json.UnitDigits 0xDE00 ['D', 'e', '0', '0'] :=
    .mk (.inr (by decide)) (.inl (by decide)) (.inl (by decide)) (.inl (by decide))
  have face : Json.Spelling '😀' _ := .pair (by decide) high low
  have spells : Json.Spells "\"\\\n😀".toList "\\\"\\\\\n\\ud83D\\uDe00".toList :=
    .cons (.letter (by decide)) (.cons (.letter (by decide)) (.cons (.plain (by decide) (by decide))
      (.cons face .nil)))
  have path : oneLetter.session.resolve ["a.txt"] = "/work/a.txt" := by decide
  obtain ⟨store, done⟩ := oneLetter_takes "\"\\\n😀"
  obtain ⟨ran, place, old, mode, bytes, file, _, back, whole, writes, others⟩ :=
    text_written_exactly ⟨by decide, by decide⟩ enclosed_letter_name spells (by decide) done
  rw [ran, ← path]
  exact ⟨place, old, mode, bytes, file, whole.mpr (writes .utf8 rfl), back, others⟩

/-- Only the finished labels of a text are written, so of a text that is one label nothing is. -/
theorem unfinished_label_is_lost :
    ((execute { encoding := .foreign .labels } (writeLine "a.txt" "abc")
        oneLetter).1.toOption.map Outcome.events) = some [overwritten "a.txt"] ∧
      (execute { encoding := .foreign .labels } (writeLine "a.txt" "abc") oneLetter).2.store.bytesAt
        "/work/a.txt" = .ok ByteArray.empty ∧
      Store.encodeWhole (.foreign .labels) (Text.CodePoints.ofString "abc") = .ok "abc".toUTF8 ∧
      "abc".toUTF8 ≠ ByteArray.empty := by
  exact ⟨by decide +kernel, by decide +kernel, by decide +kernel, by decide +kernel⟩

/-! Texts that are read back. The store holds what an encoding writes for a text; what the encoding reads
from that is shown with every break of a line as a line feed. So a text comes back as it was just when
its encoding reads it back and it has no carriage return. -/

open Store (Encoding unified)

/-- What was written to a file is read from it as what the encoding makes of the bytes that it wrote, with
every break of a line as a line feed. An encoding that reads the text back, as all do that are spelled
out, gives the text so, and one that is spelled out gives what was appended as well; the line that reads
a file after a line that wrote it reports just that. A text without a carriage return is read as it was
written, and no other. -/
theorem written_text_reads_back (settings : Settings) :
    (∀ (encoding : Encoding) (path text : String) (s t : Store),
      Store.writeText path (Text.CodePoints.ofString text) encoding s = (.ok (), t) →
        (∃ bytes, Store.encodeText encoding true (Text.CodePoints.ofString text) = .ok bytes ∧
          t.readText path encoding = (encoding.read bytes).map unified) ∧
        (encoding.ReadsBack text → t.readText path encoding = .ok (unified text))) ∧
    (∀ (codec : Codec) (text : String), (Encoding.codec codec).ReadsBack text) ∧
    (∀ (codec : Codec) (path text more : String) (s t u : Store),
      Store.writeText path (Text.CodePoints.ofString text) (.codec codec) s = (.ok (), t) →
        Store.appendText path (Text.CodePoints.ofString more) (.codec codec) t = (.ok (), u) →
          u.readText path (.codec codec) = .ok (unified (text ++ more))) ∧
    (∀ (w : World) (store : Store) (name text spelled : String), Named name →
      Token.Enclosed '"' name.toList → Json.Spells text.toList spelled.toList →
        spelled ≠ wildcard → settings.encoding.ReadsBack text →
          Store.writeText (w.session.resolve [name]) (Text.CodePoints.ofString text)
              settings.encoding w.store = (.ok (), store) →
            ∃ w', execute settings (writeLine name spelled) w =
                (.ok { statement := .write name spelled, events := [overwritten name] }, w') ∧
              execute settings (readLine name) w' =
                .reporting (.read name) (contentsOf name (unified text)) store w') ∧
    ∀ text : String, unified text = text ↔ '\r' ∉ text.toList := by
  refine ⟨?_, Encoding.readsBack_codec, fun _ _ _ _ _ _ _ => Store.readText_of_appended, ?_,
    fun _ => Store.unified_eq_self_iff⟩
  · intro encoding path text s t wrote
    obtain ⟨bytes, held, encoded⟩ := Store.bytesAt_of_written wrote
    exact ⟨⟨bytes, encoded, Store.readText_eq held⟩, fun back => Store.readText_of_written back wrote⟩
  intro w store name text spelled named enclosed spells noStar back done
  have written := execute_writeLine named enclosed noStar spells.enclosed
    (Text.decodeEscapes_of_spells spells) done
  have read : store.readText (w.session.resolve [name]) settings.encoding = .ok (unified text) :=
    Store.readText_of_written back done
  let w' : World := { w with
    store, log := w.log ++ [{ level := .ofEvent .success, message := (overwritten name).message }] }
  exact ⟨w', written, execute_readLine (w := w') named enclosed read⟩

theorem written_return_reads_back :
    ∃ w', execute {} (writeLine "a.txt" "x\\r\\ny") oneLetter =
        (.ok { statement := .write "a.txt" "x\\r\\ny", events := [overwritten "a.txt"] }, w') ∧
      (execute {} (readLine "a.txt") w').1 =
        .ok { statement := .read "a.txt", events := [contentsOf "a.txt" "x\ny"] } := by
  have spells : Json.Spells "x\r\ny".toList "x\\r\\ny".toList :=
    .cons (.plain (by decide) (by decide)) (.cons (.letter (by decide)) (.cons (.letter (by decide))
      (.cons (.plain (by decide) (by decide)) .nil)))
  obtain ⟨store, done⟩ := oneLetter_takes "x\r\ny"
  obtain ⟨w', written, read⟩ := (written_text_reads_back {}).2.2.2.1 oneLetter store "a.txt" "x\r\ny"
    "x\\r\\ny" ⟨by decide, by decide⟩ enclosed_letter_name spells (by decide)
    (Encoding.readsBack_codec .utf8 _) done
  have same : unified "x\r\ny" = "x\ny" := by decide
  rw [same] at read
  exact ⟨w', written, by rw [read]; rfl⟩

/-- A carriage return is in the file, but what is read has a line feed in its place. -/
theorem written_return_is_lost :
    (execute {} (writeLine "a.txt" "x\\ry") oneLetter).2.store.bytesAt "/work/a.txt" =
        .ok "x\ry".toUTF8 ∧
      ((execute {} (readLine "a.txt")
          (execute {} (writeLine "a.txt" "x\\ry") oneLetter).2).1.toOption.map Outcome.events) =
        some [contentsOf "a.txt" "x\ny"] ∧
      contentsOf "a.txt" "x\ny" ≠ contentsOf "a.txt" "x\ry" := by
  exact ⟨by decide +kernel, by decide +kernel, by decide⟩

end FileQuery
