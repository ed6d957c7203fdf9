import FileQuery.Proofs.Editor.Buffer
import FileQuery.Proofs.Text.Lines

/-! What a save makes of the text that was opened. A file is read with its line ends as line feeds
and is cut at every other break as well, so each break inside is a line feed when it is saved: the
text comes back with the typed lines behind it just when it had no other breaks. -/
set_option autoImplicit false
namespace FileQuery.Editor

open Store (unifyBreaks unified)
open Text (relined withoutEnd lineEnds OnlyFeeds)

section Reread
variable {c : Char} {r s : List Char}

theorem unifyBreaks_cons (noReturn : c ≠ '\r') (r : List Char) :
    unifyBreaks (c :: r) = c :: unifyBreaks r := by
  rw [unifyBreaks]
  · exact fun _ same => absurd same noReturn
  · exact fun same => absurd same noReturn

theorem unifyBreaks_ne_nil (more : s ≠ []) : unifyBreaks s ≠ [] := by
  fun_cases unifyBreaks s with
  | case1 r | case2 r | case3 r => exact List.cons_ne_nil _ _
  | case4 => exact absurd rfl more

theorem relined_unifyBreaks (feeds : OnlyFeeds (withoutEnd s)) :
    relined (unifyBreaks s) = withoutEnd s := by
  fun_induction withoutEnd s with
  | case1 | case2 | case3 | case4 => rfl
  | case5 c r feed crlf return' ih =>
      obtain ⟨own, behind⟩ := Text.onlyFeeds_cons.mp feeds
      have noReturn : c ≠ '\r' := by
        rintro rfl
        cases own rfl
      rw [unifyBreaks_cons noReturn]
      cases breaks : Text.isBreak c with
      | false => rw [Text.relined_plain breaks, ih behind]
      | true =>
          obtain rfl := own breaks
          have more : unifyBreaks r ≠ [] := unifyBreaks_ne_nil fun none => feed rfl none
          have clear : '\r' ∉ '\n' :: unifyBreaks r := by
            rw [List.mem_cons, not_or]
            exact ⟨by decide, Store.return_not_mem_unifyBreaks r⟩
          rw [Text.relined_break clear breaks more, ih behind]

theorem relined_unifyBreaks_eq_iff :
    relined (unifyBreaks s) = withoutEnd s ↔ OnlyFeeds (withoutEnd s) := by
  refine ⟨fun same => ?_, relined_unifyBreaks⟩
  rw [← same]
  exact Text.onlyFeeds_relined (Store.return_not_mem_unifyBreaks s)

end Reread

/-- Two texts that are the same but for an end of the last line that one of them may have. -/
def UpToEnd (a b : String) : Prop :=
  ∃ e ∈ lineEnds, a.toList ++ e = b.toList ∨ b.toList ++ e = a.toList

instance (a b : String) : Decidable (UpToEnd a b) :=
  inferInstanceAs (Decidable (∃ e ∈ lineEnds, _ ∨ _))

/-- A text without the end of its last line, and lines behind it. -/
def extended (text : String) (lines : List String) : String :=
  if text = "" then String.intercalate "\n" lines
  else String.ofList (withoutEnd text.toList ++ lines.flatMap fun l => '\n' :: l.toList)

/-- The text of a buffer with the lines of a text that was opened and those typed behind them. -/
def resaved (text : String) (lines : List String) : String :=
  String.intercalate "\n" (Text.lines (unified text) ++ lines)

section Texts
variable {text : String} {lines : List String}

theorem intercalate_cons (a : List Char) (rest : List (List Char)) :
    ['\n'].intercalate (a :: rest) = a ++ rest.flatMap fun l => '\n' :: l := by
  induction rest generalizing a with
  | nil => simp
  | cons b rest ih =>
      rw [List.intercalate_cons_cons, ih b, List.flatMap_cons, List.append_assoc]
      rfl

theorem intercalate_append {a : List (List Char)} (filled : a ≠ []) (b : List (List Char)) :
    ['\n'].intercalate (a ++ b) = ['\n'].intercalate a ++ b.flatMap fun l => '\n' :: l := by
  obtain ⟨x, xs, rfl⟩ := List.exists_cons_of_ne_nil filled
  rw [List.cons_append, intercalate_cons, intercalate_cons, List.flatMap_append, List.append_assoc]

theorem toList_resaved (text : String) (lines : List String) : (resaved text lines).toList =
    ['\n'].intercalate (Text.splitLines (unifyBreaks text.toList) ++ lines.map String.toList) := by
  have own : (Text.lines (unified text)).map String.toList =
      Text.splitLines (unifyBreaks text.toList) := by
    rw [Text.lines, unified, String.toList_ofList, List.map_map]
    refine (List.map_congr_left fun l _ => ?_).trans (List.map_id _)
    exact String.toList_ofList
  rw [resaved, String.toList_intercalate, List.map_append, own]
  rfl

theorem toList_resaved_nil (text : String) :
    (resaved text []).toList = relined (unifyBreaks text.toList) := by
  rw [toList_resaved, List.map_nil, List.append_nil, relined]

theorem toList_resaved_of_filled (filled : text ≠ "") (lines : List String) :
    (resaved text lines).toList =
      relined (unifyBreaks text.toList) ++ lines.flatMap fun l => '\n' :: l.toList := by
  have some : Text.splitLines (unifyBreaks text.toList) ≠ [] := by
    have more : unifyBreaks text.toList ≠ [] :=
      unifyBreaks_ne_nil fun none => filled (String.toList_eq_nil_iff.mp none)
    obtain ⟨c, r, same⟩ := List.exists_cons_of_ne_nil more
    have noReturn := Store.return_not_mem_unifyBreaks text.toList
    rw [same, List.mem_cons, not_or] at noReturn
    rw [same]
    exact Text.splitLines_ne_nil (Ne.symm noReturn.1) r
  rw [toList_resaved, intercalate_append some, relined, List.flatMap_map]

/-- A text is saved as it was, up to the end of its last line, just when it has no breaks inside but
line feeds. -/
theorem upToEnd_resaved_iff :
    UpToEnd (resaved text []) text ↔ OnlyFeeds (withoutEnd text.toList) := by
  have feeds : OnlyFeeds (relined (unifyBreaks text.toList)) :=
    Text.onlyFeeds_relined (Store.return_not_mem_unifyBreaks text.toList)
  rw [UpToEnd, toList_resaved_nil]
  constructor
  · rintro ⟨e, ends, longer | shorter⟩
    · by_cases filled : e = []
      · subst filled
        rw [List.append_nil] at longer
        exact (longer ▸ feeds).mono (Text.withoutEnd_subset _)
      · rwa [← longer, Text.withoutEnd_append feeds.noReturn ends filled]
    · rw [← shorter] at feeds
      exact (feeds.mono (List.subset_append_left _ _)).mono (Text.withoutEnd_subset _)
  · intro only
    obtain ⟨e, ends, same⟩ := Text.exists_withoutEnd text.toList
    refine ⟨e, ends, .inl ?_⟩
    rw [relined_unifyBreaks only]
    exact same.symm

/-- Lines are saved behind a text as it was just when it has no breaks inside but line feeds. -/
theorem resaved_eq_extended_iff :
    resaved text lines = extended text lines ↔ OnlyFeeds (withoutEnd text.toList) := by
  by_cases filled : text = ""
  · subst filled
    exact iff_of_true rfl nofun
  · rw [extended, if_neg filled, ← String.toList_inj, String.toList_ofList,
      toList_resaved_of_filled filled, List.append_cancel_right_eq]
    exact relined_unifyBreaks_eq_iff

end Texts

section Edit
variable {t : Step} {path text line argument : String} {lines : List String}

theorem not_closes_of_plain (plain : line.toList.head? ≠ some ':') : ¬ Closes line := by
  rintro ⟨_, called | called⟩
  · exact plain called.colon
  · exact plain called.colon

theorem editsAll_plain {s : Store} {encoding : Store.Encoding} :
    ∀ {buffer : List String}, (∀ l ∈ lines, l.toList.head? ≠ some ':') →
      EditsAll s encoding path buffer lines (buffer ++ lines) := by
  induction lines with
  | nil =>
      intro buffer _
      rw [List.append_nil]
      exact .nil
  | cons l rest ih =>
      intro buffer plain
      rw [List.append_cons]
      exact .cons (.text (plain l List.mem_cons_self))
        (ih fun l' member => plain l' (List.mem_cons_of_mem _ member))

theorem typedLines_append (after : List String) (plain : ∀ l ∈ lines, l.toList.head? ≠ some ':')
    (closes : Closes line) :
    typedLines (lines ++ line :: after) = lines ∧ unreadLines (lines ++ line :: after) = after := by
  have stay : ∀ l ∈ lines, decide (¬ Closes l) = true := fun l member => by
    simpa using not_closes_of_plain (plain l member)
  rw [typedLines, unreadLines, List.takeWhile_append_of_pos stay, List.dropWhile_append_of_pos stay]
  simp [closes]

theorem obeyed_plain (after : List String) (held : t.store.bytesAt path = .ok text.toUTF8)
    (plain : ∀ l ∈ lines, l.toList.head? ≠ some ':') (saves : Calls "save" argument line) :
    Obeyed t.store .utf8 path (lines ++ line :: after) (Text.lines (unified text) ++ lines) := by
  have read : t.store.readText path .utf8 = .ok (unified text) :=
    Store.readText_of_read held (Store.Encoding.readsBack_codec .utf8 _ _ (Store.encodeText_ofString true text))
  obtain ⟨place, mode, file⟩ := Store.target_of_bytesAt held
  have opens : t.store.opened path .utf8 = .ok (place, text.toUTF8, mode) := file
  refine ⟨⟨_, .read (Store.isFile_of_readText read) read, ?_⟩,
    fun _ => ⟨_, Store.writeText_of_opened opens _⟩⟩
  rw [(typedLines_append after plain ⟨argument, .inl saves⟩).1]
  exact editsAll_plain plain

/-- Plain lines and a save, typed in a file of a text, leave the lines of that text and then those
that were typed, and nothing else changes. That is the text as it was up to the end of its last
line, or without that end and with the typed lines behind it, exactly when it has no breaks inside
but line feeds. -/
theorem resaved_text_agrees_iff (after : List String)
    (held : t.store.bytesAt path = .ok text.toUTF8)
    (plain : ∀ l ∈ lines, l.toList.head? ≠ some ':') (saves : Calls "save" argument line) :
    (∃ t', edit .utf8 path (lines ++ line :: after) t = (.ok (), t', after) ∧
      t'.editor.saved = true ∧ t.store.TookText path .utf8 (resaved text lines) t'.store) ∧
    (lines = [] → (UpToEnd (resaved text lines) text ↔ OnlyFeeds (withoutEnd text.toList))) ∧
    (lines ≠ [] →
      (resaved text lines = extended text lines ↔ OnlyFeeds (withoutEnd text.toList))) := by
  refine ⟨?_, ?_, fun _ => resaved_eq_extended_iff⟩
  · obtain ⟨t', ran, ends⟩ := edit_of_obeyed (obeyed_plain after held plain saves)
    have does : Saves (lines ++ line :: after) :=
      ⟨lines, line, after, argument, rfl, saves,
        fun l member argument' called => plain l member called.colon⟩
    have saved := ends.saved.mpr does
    rw [(typedLines_append after plain ⟨argument, .inl saves⟩).2] at ran
    exact ⟨t', ran, saved, Store.tookText_of_written (ends.written saved)⟩
  · rintro rfl
    exact upToEnd_resaved_iff

end Edit

def textStore (text : String) : Store := folderOf text.toUTF8

theorem resaved_with_line :
    (∃ t', edit .utf8 "/work/a.txt" ["three", ":save"]
        { editor := {}, store := textStore "one\n\ntwo\r\n" } = (.ok (), t', []) ∧
      (textStore "one\n\ntwo\r\n").TookText "/work/a.txt" .utf8 "one\n\ntwo\nthree" t'.store) ∧
    resaved "one\n\ntwo\r\n" ["three"] = extended "one\n\ntwo\r\n" ["three"] := by
  obtain ⟨argument, called⟩ := command?_eq_save_iff.mp
    (show command? ":save" = some .save by decide +kernel)
  have held : (textStore "one\n\ntwo\r\n").bytesAt "/work/a.txt" = .ok "one\n\ntwo\r\n".toUTF8 := by
    decide +kernel
  have plain : ∀ l ∈ ["three"], l.toList.head? ≠ some ':' := by decide
  have text : resaved "one\n\ntwo\r\n" ["three"] = "one\n\ntwo\nthree" := by decide +kernel
  obtain ⟨⟨t', ran, -, took⟩, -, agrees⟩ := resaved_text_agrees_iff
    (t := { editor := {}, store := textStore "one\n\ntwo\r\n" }) [] held plain called
  rw [text] at took
  exact ⟨⟨t', ran, took⟩, (agrees (by decide)).mpr (by decide)⟩

/-- A form feed inside a text is a line feed once the text has been saved. -/
theorem form_feed_is_lost :
    (textStore "a\x0cb").bytesAt "/work/a.txt" = .ok "a\x0cb".toUTF8 ∧
      (edit .utf8 "/work/a.txt" [":save"] { editor := {}, store := textStore "a\x0cb" }).1 = .ok () ∧
      (edit .utf8 "/work/a.txt" [":save"]
        { editor := {}, store := textStore "a\x0cb" }).2.1.store.bytesAt "/work/a.txt" =
          .ok "a\nb".toUTF8 ∧
      ¬ UpToEnd "a\nb" "a\x0cb" := by
  exact ⟨by decide +kernel, by decide +kernel, by decide +kernel, by decide +kernel⟩

end FileQuery.Editor
