import Findings.Proofs.Report.TextRoundTrip
import Findings.Proofs.Report.XmlRoundTrip

/-!
# Counting the findings of a report

A reader of a report, in any format, counts the findings that were rendered (`findingCount?_render`). Of a JSON
report this needs no more than that its entries can be read at all, even if they do not come back as they were.
-/

namespace Findings.Report

/-- The number of findings in a report, if it can be read: of records in a text report, of elements in an XML
report, and of items in a JSON report, which is read down to the given depth. -/
def findingCount? (depth : Nat) (format : Format) (report : Text) : Option Nat :=
  match format with
  | .text => (readText report).map List.length
  | .xml => (readXml report).map List.length
  | .json => match Json.read depth report with
    | .ok (.list records) => some records.length
    | _ => none

/-- Whatever an identifier and a message are, what is written of a finding is nested one deeper, and so are its
locations. -/
theorem bounded_entryValue {depth : Nat} {e : Entry Value} (hid : Json.Bounded (depth + 2) e.id)
    (hmsg : Json.Bounded (depth + 2) e.msg) (hlines : ∀ l ∈ e.locations, l.line.natAbs < 10 ^ digitLimit) :
    Json.Bounded (depth + 3) (entryValue e) := by
  have hlocations : ∀ l ∈ e.locations, Json.Bounded (depth + 1) (locationValue l) := by
    intro l hl
    refine .object ?_
    simp only [List.forall_mem_cons, List.not_mem_nil, false_implies, implies_true, and_true]
    exact ⟨.text _, .int (hlines l hl)⟩
  refine .object ?_
  simp only [List.forall_mem_cons, List.not_mem_nil, false_implies, implies_true, and_true]
  exact ⟨.text _, .text _, hid, hmsg, .list (List.forall_mem_map.mpr hlocations)⟩

theorem findingCount?_json {depth : Nat} {es : List (Entry Value)}
    (h : ∀ e ∈ es, Json.Bounded depth (entryValue e)) :
    findingCount? (depth + 1) .json (json es) = some es.length := by
  obtain ⟨records, hread, hlength⟩ := Json.exists_read_list (List.forall_mem_map.mpr h)
  rw [List.length_map] at hlength
  simp only [findingCount?, json, hread, hlength]

/-- In each format as many findings are counted as were rendered. -/
theorem findingCount?_render {depth : Nat} {format : Format} {es : List (Entry Value)} {report : Text}
    (h : render format es = .ok report) (hes : ∀ e ∈ es, Json.Bounded depth (entryValue e)) :
    findingCount? (depth + 1) format report = some es.length := by
  cases format with
  | json =>
    rw [render_json] at h
    split_ifs at h
    obtain rfl := Except.ok.inj h
    exact findingCount?_json hes
  | text =>
    obtain ⟨es, rfl, rfl⟩ := exists_of_render_text h
    rw [List.length_map, findingCount?, readText_text, Option.map_some, List.length_map]
  | xml =>
    obtain ⟨es, rfl, rfl⟩ := exists_of_render_xml h
    rw [List.length_map, findingCount?, readXml_xml, Option.map_some, List.length_map]

end Findings.Report
