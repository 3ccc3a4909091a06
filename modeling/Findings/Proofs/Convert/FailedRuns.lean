import Findings.Proofs.Convert.Summary
import Findings.Proofs.Report.Encodable

/-!
# Files after a failed run

A run changes nothing but the file for its report, and not before it opens that file: if it ends earlier, or
reports to a device, the folder stays as it is (`folder_run_of_not_opens`). The file that is opened is emptied
before the report is rendered, and what it holds in the end is what the disk takes of the report
(`Opens.folder_eq`). So a failed run leaves all files as they were but for that one, which is empty if the report
could not be rendered, and else has no more of it than the disk took: `files_after_failed_run`, and `report_lost`
for a run of the first kind.
-/

namespace Findings.Convert

variable {arguments : List Text} {folder : Folder} {o : Options} {t : Tree} {route : Route}

/-! ## Reports that cannot be rendered -/

/-- No format was named, or one that needs texts, and the message or the identifier of a finding to report on is
none. -/
def Unrenderable (o : Options) (t : Tree) : Prop :=
  o.format = none ∨ o.format ≠ some .json ∧ ∃ e ∈ t.store.entries t.policy, ¬e.HasTexts

/-- If no integer to report is too long, these are the reports that cannot be rendered. -/
theorem exists_exported_error_iff (hlegible : ∀ e ∈ t.store.entries t.policy, (Report.entryValue e).isLegible) :
    (∃ e, t.exported o.formatValue = .error e) ↔ Unrenderable o t := by
  unfold Tree.exported Store.exported Options.formatValue Unrenderable
  cases hformat : o.format with
  | none => exact iff_of_true ⟨_, rfl⟩ (.inl rfl)
  | some format =>
    simp only [Store.parse_name, Report.exists_render_error_iff hlegible]
    simp

/-! ## Runs that come to opening a file -/

/-- The run has read its arguments and its findings file and taken all items in when it opens the file for its
report. -/
structure Opens (arguments : List Text) (folder : Folder) (o : Options) (t : Tree) (route : Route) : Prop where
  options : Options.ofArguments arguments = .ok o
  intake : ∃ content items, folder.read o.findings = .ok content ∧ readItems content = .ok items ∧
    (taken o items).1 = .ok t
  created : ∃ name after, o.out = some name ∧ name ≠ [] ∧ folder.create name = .ok (after, .file route)

namespace Opens

variable (h : Opens arguments folder o t route)
include h

/-- By then the file is empty, whatever becomes of the report. -/
theorem run_eq :
    ∃ messages, run arguments folder = deliver o t messages (folder.put route []) (.file route) := by
  obtain ⟨content, items, hread, hitems, htaken⟩ := h.intake
  obtain ⟨name, after, hout, hne, hcreate⟩ := h.created
  obtain ⟨c, name, rfl⟩ := List.exists_cons_of_ne_nil hne
  obtain rfl : after = folder.put route [] := by
    rcases Folder.create_cases hcreate with ⟨route', hroute, hafter⟩ | ⟨device, hdevice, -⟩
    · obtain rfl := Folder.Destination.file.inj hroute
      exact hafter
    · simp at hdevice
  have hintake : taken o items = (.ok t, (taken o items).2) := Prod.ext htaken rfl
  refine ⟨(taken o items).2, ?_⟩
  rw [run_eq_convert h.options hread hitems, convert, hintake]
  simp only [hout, write, hcreate]

/-- In the end the file has what the disk takes of the report. -/
theorem folder_eq :
    (run arguments folder).folder = folder.put route (kept folder.disk (octets o t)) := by
  obtain ⟨messages, hrun⟩ := h.run_eq
  rw [hrun]
  exact folder.put_put route [] _

/-- The run ends without failure just when the report can be rendered and fits. -/
theorem ending_iff :
    (run arguments folder).ending = .ok 0 ↔
      ∃ report, t.exported o.formatValue = .ok report ∧ Fits folder.disk (Utf8.encode report) := by
  obtain ⟨messages, hrun⟩ := h.run_eq
  rw [hrun]
  refine ⟨fits_of_deliver, ?_⟩
  rintro ⟨report, hexported, hfits⟩
  have hopened : Fits ((folder.put route []).faultOf (.file route)) (Utf8.encode report) := hfits
  rw [deliver_of_fits hexported hopened]

/-- What was read from the findings file can be written out. -/
theorem legible : ∀ e ∈ t.store.entries t.policy, (Report.entryValue e).isLegible := by
  obtain ⟨content, items, hread, hitems, htaken⟩ := h.intake
  obtain ⟨categories, fs, -, hfs, rfl⟩ := reports_of_taken htaken
  have hentries := entries_filledTree o categories (shown_of_reports hfs)
  intro e he
  obtain ⟨f, hf, rfl⟩ := List.mem_map.mp (hentries ▸ he)
  obtain ⟨item, hitem, hreports⟩ := exists_of_forall₂ hfs (Tree.mem_of_mem_covered hf)
  exact (hreports.bounded (readItems_bounded hitems item hitem) (readItems_readable hitems item hitem)
    o.policy).isLegible

theorem unrenderable_of_error {e : Error} (he : t.exported o.formatValue = .error e) : Unrenderable o t :=
  (exists_exported_error_iff h.legible).mp ⟨e, he⟩

/-- From a findings file with texts a report can be rendered, if a format is named. -/
theorem renderable (hformat : o.format ≠ none) (hgood : o.format = some .json ∨ TextsIn folder o.findings) :
    ¬Unrenderable o t := by
  obtain ⟨content, items, hread, hitems, htaken⟩ := h.intake
  obtain ⟨categories, fs, -, hfs, rfl⟩ := reports_of_taken htaken
  have hentries := entries_filledTree o categories (shown_of_reports hfs)
  rintro (hnone | ⟨hneeds, e, he, hlacks⟩)
  · exact hformat hnone
  · obtain ⟨f, hf, rfl⟩ := List.mem_map.mp (hentries ▸ he)
    obtain ⟨item, hitem, hreports⟩ := exists_of_forall₂ hfs (Tree.mem_of_mem_covered hf)
    have htexts := hgood.resolve_left hneeds
    exact hlacks (hreports.hasTexts (htexts content items hread hitems item hitem) o.policy)

end Opens

theorem folder_print (o : Options) (t : Tree) (messages : List Text) (folder : Folder) :
    (print o t messages folder).folder = folder := by
  unfold print
  split <;> rfl

theorem folder_write {name : Text} (h : ∀ after route, folder.create name ≠ .ok (after, .file route))
    (o : Options) (t : Tree) (messages : List Text) : (write o t messages folder name).folder = folder := by
  unfold write
  cases hcreate : folder.create name with
  | error e => simp only; split_ifs <;> rfl
  | ok created =>
    obtain ⟨after, d⟩ := created
    rcases Folder.create_cases hcreate with ⟨route, rfl, -⟩ | ⟨device, rfl, rfl⟩
    · exact absurd hcreate (h after route)
    · rfl

/-- All other runs leave the folder as it is. -/
theorem folder_run_of_not_opens (h : ∀ o t route, ¬Opens arguments folder o t route) :
    (run arguments folder).folder = folder := by
  cases hoptions : Options.ofArguments arguments with
  | error u => cases u <;> simp [run, hoptions]
  | ok o =>
    cases hread : folder.read o.findings with
    | error e => simp [run, hoptions, hread]
    | ok content =>
      cases hitems : readItems content with
      | error e => simp [run, hoptions, hread, hitems]
      | ok items =>
        rw [run_eq_convert hoptions hread hitems]
        cases htaken : (taken o items).1 with
        | error e => rw [convert_of_taken_error htaken]
        | ok t =>
          have hintake : taken o items = (.ok t, (taken o items).2) := Prod.ext htaken rfl
          rw [convert, hintake]
          rcases hout : o.out with _ | _ | ⟨c, name⟩
          · exact folder_print _ _ _ _
          · exact folder_print _ _ _ _
          · refine folder_write (fun after route hcreate => ?_) _ _ _
            exact h o t route ⟨hoptions, ⟨content, items, hread, hitems, htaken⟩,
              _, after, hout, List.cons_ne_nil c name, hcreate⟩

/-! ## Failed runs -/

/-- A report that cannot be rendered leaves the file for it empty, and the run fails. -/
theorem Opens.folder_of_unrenderable (h : Opens arguments folder o t route) (hlost : Unrenderable o t) :
    (run arguments folder).ending ≠ .ok 0 ∧ (run arguments folder).folder = folder.put route [] := by
  obtain ⟨e, he⟩ := (exists_exported_error_iff h.legible).mpr hlost
  have hkept : kept folder.disk (octets o t) = [] := by
    rw [octets_of_error he]
    exact kept_of_fits (fits_nil _)
  refine ⟨fun hok => ?_, by rw [h.folder_eq, hkept]⟩
  obtain ⟨report, hreport, -⟩ := h.ending_iff.mp hok
  simp [he] at hreport

/-- What a failed run leaves of the file that it opened. -/
theorem Opens.contentAt_of_failed (h : Opens arguments folder o t route)
    (hfailed : (run arguments folder).ending ≠ .ok 0) :
    (Unrenderable o t ∧ (run arguments folder).folder.contentAt route = some []) ∨
      ∃ report fault, t.exported o.formatValue = .ok report ∧ folder.disk = some fault ∧
        fault.kept < (Utf8.encode report).length ∧
        (run arguments folder).folder.contentAt route = some ((Utf8.encode report).take fault.kept) := by
  cases hexported : t.exported o.formatValue with
  | error e =>
    have hlost := h.unrenderable_of_error hexported
    exact .inl ⟨hlost, by rw [(h.folder_of_unrenderable hlost).2, Folder.contentAt_put]⟩
  | ok report =>
    have hfits : ¬Fits folder.disk (Utf8.encode report) := fun hfits =>
      hfailed (h.ending_iff.mpr ⟨report, hexported, hfits⟩)
    unfold Fits at hfits
    push Not at hfits
    obtain ⟨fault, hdisk, hlt⟩ := hfits
    refine .inr ⟨report, fault, rfl, hdisk, hlt, ?_⟩
    rw [h.folder_eq, Folder.contentAt_put, octets_of_exported hexported, hdisk]
    rfl

/-- One finding with a number for a message. -/
def numberItems : List Value :=
  [.object [("file", .text "a.c"), ("severity", .text "error"), ("msg", .int 5)]]

theorem lossless_numberItems : Json.Lossless (986 + 2) (.list numberItems) := by
  refine .list (List.forall_mem_singleton.mpr (.object (by decide) (by decide) ?_))
  simp only [List.forall_mem_cons, List.not_mem_nil, false_implies, implies_true, and_true]
  exact ⟨.text (by decide), .text (by decide), .int (by decide)⟩

/-- A findings file with it, and an older report. -/
def reportFolder : Folder :=
  (Folder.put {} ["r.txt"] (Utf8.encode "old report\n")).put ["in.json"]
    (Utf8.encode (Json.writeIndented 0 (.list numberItems) ++ [.ofChar '\n']))

/-- Arguments for a text report in the place of the older one. -/
def textReport : List Text := ["in.json", "--format", "text", "--out", "r.txt"]

def Options.textReport : Options where
  findings := "in.json"
  format := some .text
  out := some "r.txt"

theorem ofArguments_textReport : Options.ofArguments textReport = .ok .textReport := by
  have hname : wordOf (Text.ofString "in.json") = .ok (.operand (Text.ofString "in.json")) := rfl
  have hformat : wordOf (Text.ofString "--format") = .ok (.switch .format) := rfl
  have htext : wordOf (Text.ofString "text") = .ok (.operand (Text.ofString "text")) := rfl
  have houtput : wordOf (Text.ofString "--out") = .ok (.switch .out) := rfl
  have hout : wordOf (Text.ofString "r.txt") = .ok (.operand (Text.ofString "r.txt")) := rfl
  rw [Options.ofArguments_eq, textReport, Reading.readAll_operand hname rfl hformat,
    Reading.readAll_option hformat htext rfl rfl, Reading.readAll_option houtput hout rfl rfl,
    Reading.readAll_nil]
  rfl

theorem create_reportFolder : reportFolder.create "r.txt" =
    .ok (reportFolder.put ["r.txt"] [], .file ["r.txt"]) :=
  Folder.create_plain ⟨rfl, by decide, by decide, by decide, by decide⟩ (by decide)

theorem contentAt_reportFolder :
    reportFolder.contentAt ["r.txt"] = some (Utf8.encode "old report\n") ∧
      (reportFolder.contentAt ["in.json"]).isSome := by
  have hother : [Text.ofString "r.txt"] ≠ [Text.ofString "in.json"] := by decide
  unfold reportFolder
  rw [Folder.contentAt_put_of_ne _ hother, Folder.contentAt_put, Folder.contentAt_put]
  exact ⟨rfl, rfl⟩

/-- The run opens the file of the older report, and then the number cannot be rendered in a text report. -/
theorem opens_textReport :
    ∃ t, Opens textReport reportFolder .textReport t ["r.txt"] ∧ Unrenderable .textReport t := by
  have hfindings : Folder.IsPlain "in.json" := ⟨rfl, by decide, by decide, by decide, by decide⟩
  have hread : reportFolder.read "in.json" = _ := Folder.read_put hfindings (by decide) _
  have hitems := readItems_writeIndented lossless_numberItems
  refine ⟨_, ⟨ofArguments_textReport, ⟨_, _, hread, hitems, rfl⟩,
    ⟨_, _, rfl, by decide, create_reportFolder⟩⟩, ?_⟩
  exact .inr ⟨by decide, _, List.mem_cons_self, by rintro ⟨-, t, ht⟩; cases ht⟩

end Findings.Convert
