import Findings.Proofs.Convert.Completed
import Findings.Proofs.Report.Counting
import Findings.Proofs.Tree.Accumulation

/-!
# The summary of a run

A run that ends without failure closes with the number of all findings that it took in, while its report may be
limited to the shown ones. Whoever reads the report, in any format, counts the findings that it covers, since what
was read from a findings file can be read again (`Reports.bounded`). So the summary tells the number of findings
in the report just when none was left out (`summary_counts_iff`), and more than that else
(`summary_exceeds_report`).
-/

namespace Findings

/-! ## How many findings are stored and covered -/

namespace Tree

theorem size_foldl_file (m : Mask) {fs : List Finding} (h : ∀ f ∈ fs, f.hidden = false) :
    (fs.foldl file { mask := m }).store.size = fs.length := by
  have hempty : ({ mask := m } : Filtered).store.content.files = Store.groupsOf [] := rfl
  have hcontent : (fs.foldl file { mask := m }).store.content.files = Store.groupsOf fs :=
    content_foldl_file hempty h
  rw [← Store.size_content, Store.size, hcontent]
  exact (Store.grouped_perm h).length_eq

theorem length_covered (m : Mask) (all : Bool) {fs : List Finding} (h : ∀ f ∈ fs, f.hidden = false) :
    (covered m all fs).length = (fs.filter fun f => all || m.shows f.category).length :=
  ((Store.grouped_perm h).filter _).length_eq

end Tree

namespace Convert

/-! ## Reports on what was read -/

theorem bounded_orEmpty {depth : Nat} {v : Value} (h : Json.Bounded depth v) :
    Json.Bounded depth v.orEmpty := by
  unfold Value.orEmpty
  split
  · exact h
  · exact .text []

/-- What is written of a finding is nested no deeper than the item that reported it. -/
theorem Reports.bounded {item : Value} {f : Finding} (h : Reports item f) {depth : Nat}
    (hitem : Json.Bounded (depth + 3) item) (hreadable : Json.Readable item) (policy : PathPolicy) :
    Json.Bounded (depth + 3) (Report.entryValue (.ofFinding policy f)) := by
  have hbacktrace := h.backtrace_normal hreadable
  obtain ⟨fields, backtrace, rfl, -, hy⟩ := h.fields
  have hfield : ∀ key, Json.Bounded (depth + 2) (fieldOf fields key).orEmpty := by
    cases hitem with
    | object hfields => exact fun key => bounded_orEmpty (forall_fieldOf .null hfields key)
  have hid : Json.Bounded (depth + 2) f.id := hy.id ▸ hfield "id"
  have hmessage : Json.Bounded (depth + 2) f.message := hy.message ▸ hfield "msg"
  refine Report.bounded_entryValue hid hmessage (List.forall_mem_map.mpr fun l hl => ?_)
  obtain ⟨n, hline, hn⟩ := (hbacktrace l hl).line
  rw [hline, Int.natAbs_natCast]
  exact hn

/-- A report on what a findings file reports is read to the same depth as that, with as many findings as it
covers. -/
theorem findingCount?_of_findingsIn {folder : Folder} {name : Text} {fs : List Finding}
    (h : FindingsIn folder name fs) {covered : List Finding} (hcovered : ∀ f ∈ covered, f ∈ fs)
    {policy : PathPolicy} {format : Format} {report : Text}
    (hreport : Report.render format (covered.map (.ofFinding policy)) = .ok report) :
    Report.findingCount? depthLimit format report = some covered.length := by
  obtain ⟨content, items, -, hitems, hfs⟩ := h
  have hentries : ∀ e ∈ covered.map (Report.Entry.ofFinding policy),
      Json.Bounded (984 + 3) (Report.entryValue e) := by
    refine List.forall_mem_map.mpr fun f hf => ?_
    obtain ⟨item, hitem, hreports⟩ := exists_of_forall₂ hfs (hcovered f hf)
    exact hreports.bounded (readItems_bounded hitems item hitem) (readItems_readable hitems item hitem) policy
  rw [← List.length_map (Report.Entry.ofFinding policy)]
  exact Report.findingCount?_render hreport hentries

/-! ## The summary -/

theorem render_of_exported {o : Options} {t : Tree} {report : Text}
    (h : t.exported o.formatValue = .ok report) :
    ∃ format, o.format = some format ∧ Report.render format (t.store.entries t.policy) = .ok report := by
  unfold Tree.exported Store.exported Options.formatValue at h
  cases hformat : o.format with
  | none =>
    have hparse : Format.parse (.list []) = .error (.unknownFormat (.list [])) := rfl
    simp [hformat, hparse] at h
  | some format =>
    simp only [hformat, Store.parse_name] at h
    exact ⟨format, rfl, h⟩

theorem FindingsIn.shown {folder : Folder} {name : Text} {fs : List Finding} (h : FindingsIn folder name fs) :
    ∀ f ∈ fs, f.hidden = false := by
  obtain ⟨content, items, -, -, hfs⟩ := h
  exact shown_of_reports hfs

/-- The findings that a run with the options reports on, in their order in the findings file. -/
def Options.reportedOn (o : Options) (categories : List Category) (fs : List Finding) : List Finding :=
  fs.filter fun f => !o.visibleOnly || decide (f.category ∉ categories)

theorem length_covered_eq (o : Options) (categories : List Category) {fs : List Finding}
    (h : ∀ f ∈ fs, f.hidden = false) :
    (Tree.covered (({} : Mask).hideAll categories) (!o.visibleOnly) fs).length =
      (o.reportedOn categories fs).length := by
  have hshows : ∀ c, ({} : Mask).shows c = true := fun c => by cases c <;> rfl
  rw [Tree.length_covered _ _ h, Options.reportedOn]
  simp only [Mask.shows_hideAll, hshows, Bool.true_and]

theorem length_reportedOn_iff {o : Options} {categories : List Category} {fs : List Finding} :
    fs.length = (o.reportedOn categories fs).length ↔
      o.visibleOnly = false ∨ ∀ f ∈ fs, f.category ∉ categories := by
  rw [eq_comm, Options.reportedOn, List.length_filter_eq_length_iff]
  cases o.visibleOnly <;> simp

/-- The summary counts everything that was taken in. -/
theorem summary_filledTree {o : Options} {format : Format} (hformat : o.format = some format)
    (categories : List Category) {fs : List Finding} (h : ∀ f ∈ fs, f.hidden = false) :
    summary (o.filledTree categories fs) o =
      "[export] " ++ Text.ofNat fs.length ++ " findings, " ++ format.name := by
  have hsize : (o.filledTree categories fs).store.size = fs.length := Tree.size_foldl_file _ h
  rw [summary, hsize, Options.formatValue, hformat]
  rfl

/-- A run that ends without failure and what its last message says. The findings file reports findings, all of
which the message counts. The report is where the options ask for it, in the format that the message names, on
all findings or, of the shown ones only, on those of no hidden category; and a reader counts as many in it. So
the message tells the number of findings in the report just when no hidden one was left out. -/
theorem summary_counts_iff {arguments : List Text} {o : Options}
    (hoptions : Options.ofArguments arguments = .ok o) (folder : Folder)
    (h : (run arguments folder).ending = .ok 0) :
    ∃ format categories fs report before counted,
      o.format = some format ∧ o.hidden = categories.map some ∧ FindingsIn folder o.findings fs ∧
      (run arguments folder).messages =
        before ++ ["[export] " ++ Text.ofNat fs.length ++ " findings, " ++ format.name] ∧
      Report.render format ((Tree.covered (({} : Mask).hideAll categories) (!o.visibleOnly) fs).map
        (.ofFinding o.policy)) = .ok report ∧
      (run arguments folder).Holds o folder report ∧
      Report.findingCount? depthLimit format report = some counted ∧
      counted = (o.reportedOn categories fs).length ∧
      (fs.length = counted ↔ o.visibleOnly = false ∨ ∀ f ∈ fs, f.category ∉ categories) := by
  obtain ⟨categories, fs, hhidden, hfs, report, hcompleted⟩ := run_completed hoptions h
  obtain ⟨format, hformat, hrender⟩ := render_of_exported hcompleted.rendered
  have hreport : Report.render format ((Tree.covered (({} : Mask).hideAll categories) (!o.visibleOnly) fs).map
      (.ofFinding o.policy)) = .ok report := by
    rw [← entries_filledTree o categories hfs.shown]
    exact hrender
  have hcounted := findingCount?_of_findingsIn hfs (fun f hf => Tree.mem_of_mem_covered hf) hreport
  have hlength := length_covered_eq o categories hfs.shown
  obtain ⟨before, hmessages⟩ := hcompleted.summarised
  rw [summary_filledTree hformat categories hfs.shown] at hmessages
  exact ⟨format, categories, fs, report, before, _, hformat, hhidden, hfs, hmessages, hreport, hcompleted.holds,
    hcounted, hlength, hlength ▸ length_reportedOn_iff⟩

/-- Items that report findings of two categories. -/
def errorAndStyle : List Value :=
  [.object [("file", .text "a.c"), ("severity", .text "error"), ("msg", .text "null pointer")],
   .object [("file", .text "b.c"), ("severity", .text "style"), ("msg", .text "unused variable")]]

theorem lossless_errorAndStyle : Json.Lossless (986 + 2) (.list errorAndStyle) := by
  have hitem : ∀ file severity msg : Text, file.Unpaired → severity.Unpaired → msg.Unpaired →
      Json.Lossless (986 + 1)
        (.object [("file", .text file), ("severity", .text severity), ("msg", .text msg)]) := by
    intro file severity msg hfile hseverity hmsg
    refine .of_keys (rfl : _ = [Text.ofString "file", Text.ofString "severity", Text.ofString "msg"])
      (by decide) (by decide) ?_
    simp only [List.forall_mem_cons, List.not_mem_nil, false_implies, implies_true, and_true]
    exact ⟨.text hfile, .text hseverity, .text hmsg⟩
  refine .list ?_
  simp only [errorAndStyle, List.forall_mem_cons, List.not_mem_nil, false_implies, implies_true, and_true]
  exact ⟨hitem _ _ _ (by decide) (by decide) (by decide), hitem _ _ _ (by decide) (by decide) (by decide)⟩

/-- A findings file with them. -/
def errorAndStyleFolder : Folder :=
  Folder.put {} ["in.json"] (Utf8.encode (Json.writeIndented 0 (.list errorAndStyle) ++ [.ofChar '\n']))

/-- Arguments for a text report on the shown findings, without those of style. -/
def shownReport : List Text := printedReport "in.json" .text "" false true [.style]

theorem ofArguments_shownReport :
    Options.ofArguments shownReport = .ok (.printed "in.json" .text "" false true [.style]) :=
  ofArguments_printedReport rfl .text "" false true [.style]

theorem run_shownReport :
    run shownReport errorAndStyleFolder =
      { ending := .ok 0
        output := "a.c\terror\t\tnull pointer\n"
        messages := ["[export] 2 findings, text"]
        folder := errorAndStyleFolder } := by
  have hfindings : Folder.IsPlain "in.json" := ⟨rfl, by decide, by decide, by decide, by decide⟩
  have hread : errorAndStyleFolder.read "in.json" = _ := Folder.read_put hfindings (by decide) _
  rw [run_eq_convert ofArguments_shownReport hread (readItems_writeIndented lossless_errorAndStyle)]
  rfl

/-- What the run tells is the number of findings that it printed just if none of its findings file is of style. -/
theorem shownReport_counts :
    Options.ofArguments shownReport = .ok (.printed "in.json" .text "" false true [.style]) ∧
    (run shownReport errorAndStyleFolder).ending = .ok 0 ∧
    ∃ format fs before counted,
      FindingsIn errorAndStyleFolder "in.json" fs ∧
      (run shownReport errorAndStyleFolder).messages =
        before ++ ["[export] " ++ Text.ofNat fs.length ++ " findings, " ++ format.name] ∧
      Report.findingCount? depthLimit format (run shownReport errorAndStyleFolder).output = some counted ∧
      (fs.length = counted ↔ ∀ f ∈ fs, f.category ∉ [Category.style]) := by
  have hending : (run shownReport errorAndStyleFolder).ending = .ok 0 := by rw [run_shownReport]
  obtain ⟨format, categories, fs, report, before, counted, -, hhidden, hfs, hmessages, -, hholds, hcounted, -,
    hsame⟩ := summary_counts_iff ofArguments_shownReport errorAndStyleFolder hending
  obtain rfl : [.style] = categories := List.map_injective_iff.mpr (Option.some_injective _) hhidden
  obtain rfl : (run shownReport errorAndStyleFolder).output = report := hholds
  have hshown : (Options.printed "in.json" .text "" false true [.style]).visibleOnly ≠ false := by decide
  exact ⟨ofArguments_shownReport, hending, format, fs, before, counted, hfs, hmessages, hcounted,
    hsame.trans (or_iff_right hshown)⟩

/-- Two findings are told of, and one is in the report. -/
theorem summary_exceeds_report :
    (run shownReport errorAndStyleFolder).ending = .ok 0 ∧
      (run shownReport errorAndStyleFolder).messages = ["[export] 2 findings, text"] ∧
      (run shownReport errorAndStyleFolder).output = "a.c\terror\t\tnull pointer\n" ∧
      Report.findingCount? depthLimit .text (run shownReport errorAndStyleFolder).output = some 1 := by
  have htext : Text.ofString "a.c\terror\t\tnull pointer\n" =
      Report.text [⟨"a.c", "error", "", "null pointer", []⟩] := rfl
  rw [run_shownReport]
  refine ⟨rfl, rfl, rfl, ?_⟩
  rw [Report.findingCount?, htext, Report.readText_text]
  rfl

end Convert
end Findings
