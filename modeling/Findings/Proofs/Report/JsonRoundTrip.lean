import Findings.Proofs.Json.Ascii
import Findings.Proofs.Report.Rendering

/-!
# Reading a JSON report back

What a JSON report says of a finding is its `record`: an object with five keys in their order, the locations
in the order of the backtrace. The report is ASCII and ends in one line end, and reading it gives the records
back (`json_lossless`), unless a text in it has a pair of surrogates. There is no report if a line number has too
many digits (`overlong_line_no_json`).
-/

namespace Findings

namespace Report

/-- What a report says of a finding. -/
def record (policy : PathPolicy) (f : Finding) : Value :=
  .object [(Text.ofString "file", .text (Path.toPersisted policy f.file)),
    (Text.ofString "severity", .text f.category.label), (Text.ofString "id", f.id),
    (Text.ofString "msg", f.message),
    (Text.ofString "locations", .list (f.backtrace.map fun l =>
      .object [(Text.ofString "file", .text (Path.toPersisted policy l.file)),
        (Text.ofString "line", .int l.line)]))]

theorem entryValue_ofFinding (policy : PathPolicy) (f : Finding) :
    entryValue (.ofFinding policy f) = record policy f := by
  rw [entryValue, Entry.ofFinding, List.map_map]
  rfl

/-! ## What is written can be read -/

/-- No text that a report has of the finding has a pair of surrogates. -/
structure Unpaired (policy : PathPolicy) (f : Finding) : Prop where
  file : (Path.toPersisted policy f.file).Unpaired
  id : ∃ t, f.id = .text t ∧ t.Unpaired
  message : ∃ t, f.message = .text t ∧ t.Unpaired
  backtrace : ∀ l ∈ f.backtrace, (Path.toPersisted policy l.file).Unpaired

theorem lossless_record {policy : PathPolicy} {f : Finding} (h : Unpaired policy f)
    (hlines : ∀ l ∈ f.backtrace, Findings.Legible l.line) (depth : Nat) :
    Json.Lossless (depth + 3) (record policy f) := by
  obtain ⟨id, hid, hident⟩ := h.id
  obtain ⟨message, hmessage, hmsg⟩ := h.message
  have hlabel : f.category.label.Unpaired := by cases f.category <;> decide
  have hlocations : ∀ l ∈ f.backtrace, Json.Lossless (depth + 1)
      (.object [(Text.ofString "file", .text (Path.toPersisted policy l.file)),
        (Text.ofString "line", .int l.line)]) := by
    intro l hl
    refine .of_keys (rfl : _ = [Text.ofString "file", Text.ofString "line"]) (by decide) (by decide) ?_
    simp only [List.forall_mem_cons, List.not_mem_nil, false_implies, implies_true, and_true]
    exact ⟨.text (h.backtrace l hl), .int (hlines l hl)⟩
  refine .of_keys (rfl : _ = [Text.ofString "file", Text.ofString "severity", Text.ofString "id",
    Text.ofString "msg", Text.ofString "locations"]) (by decide) (by decide) ?_
  simp only [List.forall_mem_cons, List.not_mem_nil, false_implies, implies_true, and_true, hid, hmessage]
  exact ⟨.text h.file, .text hlabel, .text hident, .text hmsg, .list (List.forall_mem_map.mpr hlocations)⟩

theorem Unpaired.isLegible_iff {policy : PathPolicy} {f : Finding} (h : Unpaired policy f) :
    (entryValue (.ofFinding policy f)).isLegible ↔ ∀ l ∈ f.backtrace, Findings.Legible l.line := by
  obtain ⟨id, hid, -⟩ := h.id
  obtain ⟨message, hmessage, -⟩ := h.message
  rw [isLegible_entryValue, legible_ofFinding]
  simp [Entry.ofFinding, hid, hmessage, Value.isLegible]

end Report

namespace Store

/-- The records of all findings that a report covers. -/
def records (s : Store) (policy : PathPolicy) : List Value := (s.select policy).map (Report.record policy)

theorem json_entries (s : Store) (policy : PathPolicy) :
    Report.json (s.entries policy) =
      Json.writeIndented 0 (.list (s.records policy)) ++ [.ofChar '\n'] := by
  have hrecords : (s.entries policy).map Report.entryValue = s.records policy := by
    rw [entries, List.map_map, records]
    exact List.map_congr_left fun f _ => Report.entryValue_ofFinding policy f
  rw [Report.json, hrecords]

/-- A JSON report is ASCII and ends in one line end, behind the bracket that closes the list. -/
theorem json_ascii (s : Store) (policy : PathPolicy) :
    (∀ c ∈ Report.json (s.entries policy), c.val < 0x80) ∧
      ∃ front : Text, Report.json (s.entries policy) = front ++ "]\n" := by
  have hprinted : (Report.json (s.entries policy)).all Json.isPrinted := by
    rw [json_entries, List.all_append, Json.all_writeIndented]
    decide
  refine ⟨fun c hc => Json.val_lt_of_isPrinted (List.all_eq_true.mp hprinted c hc), ?_⟩
  rw [json_entries, Json.writeIndented, Json.block]
  split_ifs
  · exact ⟨"[", rfl⟩
  · exact ⟨_, List.append_assoc _ _ _⟩

/-- If no text that it would have has a pair of surrogates, there is a JSON report just when no line number has too
many digits. It is ASCII and ends in one line end, and it is read as the records of the findings it covers. -/
theorem json_lossless (s : Store) (policy : PathPolicy)
    (h : ∀ f ∈ s.select policy, Report.Unpaired policy f) :
    ((∀ f ∈ s.select policy, ∀ l ∈ f.backtrace, Legible l.line) →
      ∃ report, s.exported (.text "json") policy = .ok report ∧
        (∀ c ∈ report, c.val < 0x80) ∧ (∃ front : Text, report = front ++ "]\n") ∧
        ∀ depth, Json.read (depth + 4) report = .ok (.list (s.records policy))) ∧
    ((∃ f ∈ s.select policy, ∃ l ∈ f.backtrace, ¬Legible l.line) →
      s.exported (.text "json") policy = .error .integerTooLong) := by
  have hexported : s.exported (.text "json") policy = Report.render .json (s.entries policy) := rfl
  have hlegible : (∀ e ∈ s.entries policy, (Report.entryValue e).isLegible) ↔
      ∀ f ∈ s.select policy, ∀ l ∈ f.backtrace, Legible l.line := by
    rw [entries, List.forall_mem_map]
    exact forall₂_congr fun f hf => (h f hf).isLegible_iff
  simp only [hexported, Report.render_json, hlegible]
  refine ⟨fun hlines => ?_, fun hlines => if_neg (by push Not; exact hlines)⟩
  obtain ⟨hascii, hend⟩ := json_ascii s policy
  refine ⟨_, if_pos hlines, hascii, hend, fun depth => ?_⟩
  rw [json_entries]
  refine Json.read_writeIndented (.list fun record hrecord => ?_)
  obtain ⟨f, hf, rfl⟩ := List.mem_map.mp hrecord
  exact Report.lossless_record (h f hf) (hlines f hf) depth

/-- Lone surrogates, a quotation mark and a backslash, controls, a character outside the basic plane, a negative
line number, and no locations at all. -/
def awkward : List Finding :=
  [{ file := "/src/a.c", category := .style, label := .null
     message := .text [.ofNat 0xDC00, .ofNat 0xD800, .ofChar '"', .ofChar '\\', .ofNat 0x1F600]
     backtrace := [⟨"/src/a.c", -3⟩, ⟨[.ofNat 0xD800], 7⟩] },
   { file := "/src/a.c", category := .error, label := .null, id := .text "null"
     message := .text [.ofChar '\n', .ofNat 0], hidden := true }]

theorem awkward_lossless :
    let s : Store := { files := [{ path := "/src/a.c", findings := awkward, hidden := false }] }
    (∀ f ∈ s.select {}, Report.Unpaired {} f) ∧
      ∃ report, s.exported (.text "json") {} = .ok report ∧ (∀ c ∈ report, c.val < 0x80) ∧
        Json.read 4 report = .ok (.list (s.records {})) := by
  intro s
  have hselect : s.select {} = awkward := rfl
  have hunpaired : ∀ f ∈ s.select {}, Report.Unpaired {} f := by
    simp only [hselect, awkward, List.forall_mem_cons]
    refine ⟨⟨by decide, ⟨_, rfl, by decide⟩, ⟨_, rfl, by decide⟩, by decide⟩,
      ⟨by decide, ⟨_, rfl, by decide⟩, ⟨_, rfl, by decide⟩, by decide⟩, by simp⟩
  have hlines : ∀ f ∈ s.select {}, ∀ l ∈ f.backtrace, Legible l.line := by
    simp only [hselect, awkward]
    decide
  obtain ⟨report, hexported, hascii, -, hread⟩ := (json_lossless s {} hunpaired).1 hlines
  exact ⟨hunpaired, report, hexported, hascii, hread 0⟩

/-- A store with a finding whose line has too many digits. -/
def overlongStore : Store where
  files :=
    [{ path := "a.c"
       findings :=
         [{ file := "a.c", category := .error, message := .text "m", backtrace := [⟨"a.c", overlong⟩]
            label := .null }]
       hidden := false }]

/-- All texts of it are plain ASCII, and still there is no JSON report. -/
theorem overlong_line_no_json :
    (∀ f ∈ overlongStore.select {}, Report.Unpaired {} f) ∧
      ¬∃ report, overlongStore.exported (.text "json") {} = .ok report := by
  have hunpaired : ∀ f ∈ overlongStore.select {}, Report.Unpaired {} f :=
    List.forall_mem_singleton.mpr ⟨by decide, ⟨_, rfl, by decide⟩, ⟨_, rfl, by decide⟩,
      List.forall_mem_singleton.mpr (by decide)⟩
  refine ⟨hunpaired, ?_⟩
  rw [show overlongStore.exported (.text "json") {} =
    Report.render .json ([Report.overlongEntry].map Report.Entry.values) from rfl, Report.render_overlongEntry]
  simp

end Store
end Findings
