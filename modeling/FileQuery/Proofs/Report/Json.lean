import FileQuery.Proofs.Json.Document
import FileQuery.Report.Basic

/-! Reports in JSON are read back: a report is an array with one object for each record, in order,
and no object in it has a name twice. -/
set_option autoImplicit false
namespace FileQuery

variable {limit : Option Nat}

theorem Field.nodup_labels : Field.labels.Nodup := by decide

theorem Record.readable_shown {r : Record} (fits : Json.Fits limit r.size) (f : Field) :
    (r.shown f).Readable limit := by
  cases f with
  | size =>
      rw [shown, Json.Value.Readable]
      exact fits
  | _ =>
      rw [shown, Json.Value.Readable]
      trivial

theorem Record.readable_toJson {r : Record} (fits : Json.Fits limit r.size) :
    r.toJson.Readable limit := by
  rw [toJson, Json.Value.Readable, Json.entriesReadable_iff]
  constructor
  · rw [List.map_map]
    exact Field.nodup_labels
  · intro e member
    obtain ⟨f, _, rfl⟩ := List.mem_map.mp member
    exact readable_shown fits f

namespace Report

/-- A report is read as the objects of its records, unless a size in it has more digits than are
read. -/
theorem read_json {records : List Record} (fits : ∀ r ∈ records, Json.Fits limit r.size) :
    Json.read (json records).toList limit = .ok (.array (records.map Record.toJson)) := by
  rw [json, Json.Value.pretty, Json.Value.text, String.toList_ofList]
  refine Json.read_chars rfl ?_ 0
  rw [Json.Value.Readable, Json.itemsReadable_iff]
  intro v member
  obtain ⟨r, kept, rfl⟩ := List.mem_map.mp member
  exact Record.readable_toJson (fits r kept)

theorem Format.ofPath_eq_json {path : String}
    (extension : Text.lower (Path.extension (Path.baseName path.toList)) = ".json".toList) :
    Format.ofPath path = .json := by
  rw [Format.ofPath, extension]
  rfl

theorem render_json {path : String} (style : Style) (records : List Record)
    (extension : Text.lower (Path.extension (Path.baseName path.toList)) = ".json".toList) :
    render style path records = .ok (json records) := by
  rw [render, Format.ofPath_eq_json extension]

end Report

end FileQuery
