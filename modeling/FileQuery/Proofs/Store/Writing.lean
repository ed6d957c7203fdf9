import FileQuery.Proofs.Store.Change

/-! What a text that is to be written leaves in the store. A file is opened before the text is
encoded: until then nothing is changed, and from then on a text without bytes in the encoding leaves
an empty file, or what was there if it was to be appended. -/
set_option autoImplicit false
namespace FileQuery.Store

/-- The file at a path, opened to be written to in an encoding. -/
def opened (s : Store) (path : String) (encoding : Encoding) :
    Except Fault (Place × ByteArray × Nat) := do
  encoding.checkType
  s.target path

/-- A text that is to stand in a file, or to follow what stands there. -/
structure Writing where
  path : String
  text : Text.CodePoints
  appends : Bool

namespace Writing

variable {x : Writing} {encoding : Encoding} {s s' : Store} {f : Fault} {place : Place}
  {old : ByteArray} {mode : Nat}

def change (x : Writing) (encoding : Encoding) : Change :=
  if x.appends then appendText x.path x.text encoding else writeText x.path x.text encoding

theorem change_overwriting (path : String) (text : Text.CodePoints) (encoding : Encoding) :
    change ⟨path, text, false⟩ encoding = writeText path text encoding := rfl

def encoded (x : Writing) (encoding : Encoding) (old : ByteArray) : Except Fault ByteArray :=
  encodeText encoding (if x.appends then old.isEmpty else true) x.text

def kept (x : Writing) (old : ByteArray) : ByteArray := if x.appends then old else ByteArray.empty

/-- Whether the file opens for a text that then has no bytes in the encoding. -/
def CutShort (x : Writing) (encoding : Encoding) (s : Store) : Prop :=
  ∃ place old mode f, s.opened x.path encoding = .ok (place, old, mode) ∧
    x.encoded encoding old = .error f

theorem change_of_not_opened (stopped : s.opened x.path encoding = .error f) :
    x.change encoding s = (.error f, s) := by
  rw [opened] at stopped
  rw [change]
  split
  · rw [appendText, stopped]
  · rw [writeText, stopped]

theorem change_of_encoded {bytes : ByteArray}
    (opens : s.opened x.path encoding = .ok (place, old, mode))
    (done : x.encoded encoding old = .ok bytes) :
    x.change encoding s = (.ok (), s.putBytes place mode (x.kept old ++ bytes)) := by
  rw [opened] at opens
  rw [encoded] at done
  rw [change, kept]
  split
  · next appends =>
      rw [if_pos appends] at done
      rw [appendText, opens]
      simp only [done]
  · next replaces =>
      rw [if_neg replaces] at done
      rw [writeText, opens]
      simp only [done, ByteArray.empty_append]

theorem change_of_not_encoded (opens : s.opened x.path encoding = .ok (place, old, mode))
    (stopped : x.encoded encoding old = .error f) :
    x.change encoding s = (.error f, s.putBytes place mode (x.kept old)) := by
  rw [opened] at opens
  rw [encoded] at stopped
  rw [change, kept]
  split
  · next appends =>
      rw [if_pos appends] at stopped
      rw [appendText, opens]
      simp only [stopped]
  · next replaces =>
      rw [if_neg replaces] at stopped
      rw [writeText, opens]
      simp only [stopped]

theorem target_of_opened (opens : s.opened x.path encoding = .ok (place, old, mode)) :
    s.target x.path = .ok (place, old, mode) := by
  rw [opened] at opens
  cases checked : encoding.checkType with
  | error f =>
      rw [checked] at opens
      cases opens
  | ok _ =>
      rw [checked] at opens
      exact opens

theorem surrogate_of_cutShort (cut : x.CutShort .utf8 s) :
    ∃ n ∈ x.text, Text.isSurrogate n = true := by
  obtain ⟨place, old, mode, f, _, stopped⟩ := cut
  rw [encoded] at stopped
  refine (stray_encodeText _).mp ⟨f, stopped, ?_⟩
  simp only [encodeText, Encoding.utf8] at stopped
  cases bytes : Codec.utf8.encode (if x.appends then old.isEmpty else true) x.text with
  | ok _ =>
      rw [bytes] at stopped
      cases stopped
  | error g =>
      rw [bytes] at stopped
      cases stopped
      rfl

theorem not_cutShort_ofString {path text : String} {appends : Bool} :
    ¬ CutShort ⟨path, Text.CodePoints.ofString text, appends⟩ .utf8 s :=
  fun cut => plain_ofString text (surrogate_of_cutShort cut)

end Writing

end FileQuery.Store
