import Findings.Proofs.Convert.Items
import Findings.Proofs.Report.JsonRoundTrip
import Findings.Proofs.Text.Utf8

/-!
# JSON reports as findings files

A JSON report with full paths on normal findings is a findings file (`readItems_json`), and its items report
these findings again (`reports_entryValue`). Only the label is the one of the category then, whatever was
reported before.
-/

namespace Findings

theorem Tree.classify_label (c : Category) : Tree.classify (.text c.label) = .ok (c, true) := by
  cases c <;> rfl

theorem Path.Normal.toCanonicalPath {p : Text} (h : Path.Normal p) :
    (Value.text p).toCanonicalPath = .ok p := by
  rw [Value.toCanonicalPath_text, h.canonical]

theorem Location.Normal.legible {l : Location} (h : l.Normal) : Legible l.line := by
  obtain ⟨n, hline, hn⟩ := h.line
  rw [hline, legible_iff, Int.natAbs_natCast]
  exact hn

/-- What a report has of a normal finding can be written out. -/
theorem Finding.Normal.isLegible {f : Finding} (h : f.Normal) (policy : PathPolicy) :
    (Report.entryValue (.ofFinding policy f)).isLegible := by
  obtain ⟨id, hid, -⟩ := h.id
  obtain ⟨message, hmessage, -⟩ := h.message
  rw [Report.isLegible_entryValue, Report.legible_ofFinding]
  exact ⟨by rw [Report.Entry.ofFinding, hid]; rfl, by rw [Report.Entry.ofFinding, hmessage]; rfl,
    fun l hl => (h.backtrace l hl).legible⟩

/-- The finding with the label that a report gives it. -/
def Finding.relabelled (f : Finding) : Finding := { f with label := .text f.category.label }

@[simp] theorem Finding.relabelled_file (f : Finding) : f.relabelled.file = f.file := rfl

@[simp] theorem Finding.relabelled_category (f : Finding) :
    f.relabelled.category = f.category := rfl

theorem Finding.Normal.relabelled {f : Finding} (h : f.Normal) : f.relabelled.Normal :=
  ⟨h.file, h.message, h.backtrace, h.id, h.shown⟩

namespace Convert

/-- A file in the indented layout has the items that were written. -/
theorem readItems_writeIndented {items : List Value}
    (h : Json.Lossless depthLimit (.list items)) :
    readItems (Utf8.encode (Json.writeIndented 0 (.list items) ++ [.ofChar '\n'])) = .ok items := by
  have hencodable : Text.isEncodable (Json.writeIndented 0 (.list items) ++ [.ofChar '\n']) :=
    Text.isEncodable_append.mpr ⟨Json.isEncodable_writeIndented _ 0, by decide⟩
  unfold readItems
  rw [Utf8.decode?_encode hencodable]
  simp only [Json.read_writeIndented h]

/-- The two values that a location is reported by. -/
def locationPair (l : Location) : Value × Value := (.text l.file, .int l.line)

theorem locationOf_locationValue (l : Location) :
    locationOf (Report.locationValue l) = .ok (locationPair l) := by
  have hfields : locationOf (Report.locationValue l) =
      .ok ((Value.text l.file).orEmpty,
        if (Value.int l.line).isGiven then .int l.line else .int 0) := rfl
  rw [hfields, Value.orEmpty_text, locationPair]
  by_cases hline : l.line = 0 <;> simp [Value.isGiven, hline]

theorem locationsOf_locationValue (ls : List Location) :
    locationsOf (.list (ls.map Report.locationValue)) = .ok (ls.map locationPair) := by
  cases ls with
  | nil => rfl
  | cons l ls =>
    have hmap : ((l :: ls).map Report.locationValue).mapM locationOf =
        .ok ((l :: ls).map locationPair) := mapM_map_pure locationOf_locationValue _
    exact hmap

theorem toLocations_locationPair {ls : List Location} (h : ∀ l ∈ ls, l.Normal) :
    Tree.toLocations (ls.map locationPair) = .ok ls := by
  induction ls with
  | nil => rfl
  | cons l ls ih =>
    rw [List.forall_mem_cons] at h
    obtain ⟨n, hline, -⟩ := h.1.line
    have hl : Tree.toLocation (.text l.file) (.int l.line) = .ok l := by
      rw [Tree.toLocation, h.1.file.toCanonicalPath]
      cases l
      simp_all [Value.toLine]
    rw [List.map_cons, locationPair, Tree.toLocations, hl, ih h.2]

/-- What the item of an entry reports. -/
theorem reportOf_entryValue (e : Report.Entry Value) :
    reportOf (Report.entryValue e) =
      .ok { file := .text e.file, severity := .text e.severity, message := e.msg.orEmpty
            backtrace := e.locations.map locationPair, id := e.id.orEmpty } := by
  have hfields : reportOf (Report.entryValue e) =
      (locationsOf (.list (e.locations.map Report.locationValue))).map fun backtrace =>
        { file := (Value.text e.file).orEmpty, severity := (Value.text e.severity).orEmpty
          message := e.msg.orEmpty, backtrace, id := e.id.orEmpty } := rfl
  rw [hfields, locationsOf_locationValue, Value.orEmpty_text, Value.orEmpty_text]
  rfl

/-! ## Normal findings -/

section

variable {policy : PathPolicy} (hpolicy : policy.saveFullPath = true)
include hpolicy

theorem toPersisted_fullPath (path : Text) : Path.toPersisted policy path = path := by
  simp [Path.toPersisted, hpolicy]

theorem ofFinding_fullPath (f : Finding) :
    Report.Entry.ofFinding policy f = ⟨f.file, f.category.label, f.id, f.message, f.backtrace⟩ := by
  simp [Report.Entry.ofFinding, toPersisted_fullPath hpolicy]

theorem lossless_ofFinding {f : Finding} (h : f.Normal) (depth : Nat) :
    Json.Lossless (depth + 3) (Report.entryValue (.ofFinding policy f)) := by
  have hunpaired : Report.Unpaired policy f := by
    refine ⟨?_, h.id, h.message, fun l hl => ?_⟩
    · rw [toPersisted_fullPath hpolicy]
      exact h.file.unpaired
    · rw [toPersisted_fullPath hpolicy]
      exact (h.backtrace l hl).file.unpaired
  rw [Report.entryValue_ofFinding]
  exact Report.lossless_record hunpaired (fun l hl => (h.backtrace l hl).legible) depth

/-- The item that a report has for a finding reports that finding. -/
theorem reports_entryValue {f : Finding} (h : f.Normal) :
    Reports (Report.entryValue (.ofFinding policy f)) f.relabelled := by
  obtain ⟨message, hmessage, -⟩ := h.message
  obtain ⟨id, hid, -⟩ := h.id
  rw [ofFinding_fullPath hpolicy, hmessage, hid]
  refine ⟨_, reportOf_entryValue _, h.file.toCanonicalPath, ⟨true, Tree.classify_label _⟩, ?_,
    toLocations_locationPair h.backtrace, ?_, rfl, h.shown⟩
  · exact hmessage.trans (Value.orEmpty_text message).symm
  · exact hid.trans (Value.orEmpty_text id).symm

/-- The report on normal findings is read as the items of its entries. -/
theorem readItems_json {fs : List Finding} (h : ∀ f ∈ fs, f.Normal) :
    readItems (Utf8.encode (Report.json (fs.map (.ofFinding policy)))) =
      .ok (fs.map fun f => Report.entryValue (.ofFinding policy f)) := by
  have hlossless : Json.Lossless depthLimit
      (.list ((fs.map (.ofFinding policy)).map Report.entryValue)) := by
    refine .list ?_
    simp only [List.forall_mem_map]
    exact fun f hf => lossless_ofFinding hpolicy (h f hf) 984
  rw [Report.json, readItems_writeIndented hlossless, List.map_map]
  rfl

end

end Convert
end Findings
