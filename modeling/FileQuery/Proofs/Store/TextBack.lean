import FileQuery.Proofs.Codec.RoundTrip
import FileQuery.Proofs.Store.ReadBack

/-! Texts that are read back from the files they were written to. A file holds a text as it was
written, in whatever encoding; an encoding that is spelled out reads it from there. Reading makes every
break of a line a line feed, so a text comes back as it was just when it has no carriage return. -/
set_option autoImplicit false
namespace FileQuery.Store

def unified (text : String) : String := String.ofList (unifyBreaks text.toList)

theorem return_not_mem_unifyBreaks (s : List Char) : '\r' ∉ unifyBreaks s := by
  fun_induction unifyBreaks s with
  | case1 r ih => simpa using ih
  | case2 r other ih => simpa using ih
  | case3 c r crlf other ih =>
      rw [List.mem_cons, not_or]
      exact ⟨fun same => other same.symm, ih⟩
  | case4 => simp

theorem unifyBreaks_of_no_return {s : List Char} (clear : '\r' ∉ s) : unifyBreaks s = s := by
  fun_induction unifyBreaks s with
  | case1 r ih => exact absurd List.mem_cons_self clear
  | case2 r other ih => exact absurd List.mem_cons_self clear
  | case3 c r crlf other ih => rw [ih fun member => clear (List.mem_cons_of_mem c member)]
  | case4 => rfl

theorem unified_eq_self_iff {text : String} : unified text = text ↔ '\r' ∉ text.toList := by
  constructor
  · intro same
    rw [← same, unified, String.toList_ofList]
    exact return_not_mem_unifyBreaks _
  · intro clear
    rw [unified, unifyBreaks_of_no_return clear, String.ofList_toList]

variable {s t u : Store} {path text more : String} {encoding : Encoding} {bytes bytes' : ByteArray}

theorem encodeText_codec_eq_ok_iff {codec : Codec} {atStart : Bool} {points : Text.CodePoints} :
    encodeText (.codec codec) atStart points = .ok bytes ↔ codec.encode atStart points = .ok bytes := by
  rw [encodeText]
  cases codec.encode atStart points <;> simp

namespace Encoding

/-- Whether an encoding reads a text from the bytes that it writes for it. -/
def ReadsBack (encoding : Encoding) (text : String) : Prop :=
  ∀ bytes, encodeText encoding true (Text.CodePoints.ofString text) = .ok bytes →
    encoding.read bytes = .ok text

theorem readsBack_codec (codec : Codec) (text : String) : (Encoding.codec codec).ReadsBack text := by
  intro bytes encoded
  rw [Encoding.read, Codec.decode_encode true (encodeText_codec_eq_ok_iff.mp encoded)]
  rfl

/-- Whether a file that a text is written to gets all the bytes that the text has in an encoding. -/
def WritesWhole (encoding : Encoding) (text : Text.CodePoints) : Prop :=
  encodeText encoding true text = encodeWhole encoding text

theorem writesWhole_codec (codec : Codec) (text : Text.CodePoints) :
    (Encoding.codec codec).WritesWhole text := rfl

end Encoding

/-- What is read of a file is what the encoding makes of its bytes, with line breaks unified. -/
theorem readText_eq (held : s.bytesAt path = .ok bytes) :
    s.readText path encoding = (encoding.read bytes).map unified := by
  rw [readText, held]
  cases encoding with
  | illTyped type => rfl
  | _ =>
      simp only [Encoding.checkType, bind, Except.bind]
      cases Encoding.read bytes _ <;> rfl

theorem readText_of_read (held : s.bytesAt path = .ok bytes) (read : encoding.read bytes = .ok text) :
    s.readText path encoding = .ok (unified text) := by
  rw [readText_eq held, read]
  rfl

theorem isFile_of_readText (read : s.readText path encoding = .ok text) : s.isFile path = true := by
  rw [readText, bytesAt] at read
  rw [isFile]
  cases checked : encoding.checkType with
  | error f =>
      rw [checked] at read
      cases read
  | ok _ =>
      rw [checked] at read
      cases found : s.stat true path with
      | error f =>
          rw [found] at read
          cases read
      | ok entry =>
          rw [found] at read
          obtain ⟨place, e⟩ := entry
          cases e with
          | file bytes mode modified => rfl
          | folder mode => cases read
          | link target => cases read

theorem encodeText_append {codec : Codec}
    (first : encodeText (.codec codec) true (Text.CodePoints.ofString text) = .ok bytes)
    (second : encodeText (.codec codec) bytes.isEmpty (Text.CodePoints.ofString more) = .ok bytes') :
    encodeText (.codec codec) true (Text.CodePoints.ofString (text ++ more)) = .ok (bytes ++ bytes') :=
  encodeText_codec_eq_ok_iff.mpr (Codec.encode_append (encodeText_codec_eq_ok_iff.mp first)
    (encodeText_codec_eq_ok_iff.mp second))

theorem target_of_bytesAt (held : s.bytesAt path = .ok bytes) :
    ∃ place mode, s.target path = .ok (place, bytes, mode) := by
  rw [bytesAt, stat] at held
  rw [target]
  cases located : s.locate true path with
  | error f =>
      rw [located] at held
      cases held
  | ok spot =>
      rw [located] at held
      cases spot with
      | free place => cases held
      | found place e =>
          cases e with
          | file bytes' mode' modified =>
              cases held
              exact ⟨place, mode', rfl⟩
          | folder mode' => cases held
          | link target => cases held

theorem old_of_bytesAt {place : Place} {old : ByteArray} {mode : Nat}
    (held : s.bytesAt path = .ok bytes) (file : s.target path = .ok (place, old, mode)) :
    old = bytes := by
  obtain ⟨place', mode', opens⟩ := target_of_bytesAt held
  rw [opens] at file
  cases file
  rfl

theorem appendText_of_held (held : s.bytesAt path = .ok bytes) (text : String) :
    ∃ place mode, s.target path = .ok (place, bytes, mode) ∧
      appendText path (Text.CodePoints.ofString text) .utf8 s =
        (.ok (), s.putBytes place mode (bytes ++ text.toUTF8)) := by
  obtain ⟨place, mode, file⟩ := target_of_bytesAt held
  have opens : s.opened path .utf8 = .ok (place, bytes, mode) := file
  exact ⟨place, mode, file, Writing.change_of_encoded
    (x := ⟨path, Text.CodePoints.ofString text, true⟩) opens (encodeText_ofString _ text)⟩

theorem bytesAt_of_written
    (wrote : writeText path (Text.CodePoints.ofString text) encoding s = (.ok (), t)) :
    ∃ bytes, t.bytesAt path = .ok bytes ∧
      encodeText encoding true (Text.CodePoints.ofString text) = .ok bytes := by
  obtain ⟨_, _, _, bytes, _, encoded, _, held⟩ :=
    Writing.bytesAt_of_done (x := ⟨path, .ofString text, false⟩) wrote
  rw [Writing.kept, if_neg Bool.false_ne_true, ByteArray.empty_append] at held
  exact ⟨bytes, held, encoded⟩

theorem bytesAt_of_appended {codec : Codec} (held : s.bytesAt path = .ok bytes)
    (encoded : encodeText (.codec codec) true (Text.CodePoints.ofString text) = .ok bytes)
    (added : appendText path (Text.CodePoints.ofString more) (.codec codec) s = (.ok (), t)) :
    ∃ bytes', t.bytesAt path = .ok bytes' ∧
      encodeText (.codec codec) true (Text.CodePoints.ofString (text ++ more)) = .ok bytes' := by
  obtain ⟨_, old, _, bytes', file, encoded', _, back⟩ :=
    Writing.bytesAt_of_done (x := ⟨path, .ofString more, true⟩) added
  obtain rfl := old_of_bytesAt held file
  exact ⟨_, back, encodeText_append encoded encoded'⟩

theorem readText_of_written (readsBack : encoding.ReadsBack text)
    (wrote : writeText path (Text.CodePoints.ofString text) encoding s = (.ok (), t)) :
    t.readText path encoding = .ok (unified text) := by
  obtain ⟨bytes, held, encoded⟩ := bytesAt_of_written wrote
  exact readText_of_read held (readsBack bytes encoded)

theorem readText_of_appended {codec : Codec}
    (wrote : writeText path (Text.CodePoints.ofString text) (.codec codec) s = (.ok (), t))
    (added : appendText path (Text.CodePoints.ofString more) (.codec codec) t = (.ok (), u)) :
    u.readText path (.codec codec) = .ok (unified (text ++ more)) := by
  obtain ⟨_, held, encoded⟩ := bytesAt_of_written wrote
  obtain ⟨_, held', encoded'⟩ := bytesAt_of_appended held encoded added
  exact readText_of_read held' (Encoding.readsBack_codec codec _ _ encoded')

end FileQuery.Store
