import Findings.Proofs.Convert.Summary
import Findings.Proofs.Text.Lines

/-!
# Labels that no category has

A finding whose label no category has is filed as an error and keeps its label (`Reports.classified`), and this is
all that taking findings in gives a warning for (`shown_takeIn`). A run that ends without failure adds nothing but
its summary (`convert_completed`). Labels are quoted, so each message is one line, whatever its label holds
(`fallbacks_reported`).
-/

namespace Findings

theorem Tree.log_add (t : Tree) (r : Tree.Report) : (t.add r).log = r.events := by
  rw [Tree.add_eq]
  cases r.filed <;> rfl

namespace Convert

/-! ## Items -/

/-- The label that an item gives its finding; the empty text if it has none. -/
def labelOf : Value → Text
  | .object fields => match (fieldOf fields "severity").orEmpty with
    | .text t => t
    | _ => []
  | _ => []

/-- The severity of an item is a text or counts as not given, as one that is missing does. -/
def HasLabel (item : Value) : Prop :=
  ∀ fields, item = .object fields → ∃ t, (fieldOf fields "severity").orEmpty = .text t

/-- No category has the label of the item. -/
def fallsBack (item : Value) : Bool := !Category.all.any (·.label = labelOf item)

/-- The message about a label that no category has. -/
def fallbackLine (label : Text) : Text := "Unknown severity " ++ label.quoted ++ ", filing under error"

/-- The finding is filed under the category that has the label of the item, as an error if none has, and keeps the
label. -/
structure Classified (item : Value) (f : Finding) : Prop where
  label : f.label = .text (labelOf item)
  known : fallsBack item = false → f.category.label = labelOf item
  unknown : fallsBack item → f.category = .error

theorem severity_of_reportOf {item : Value} (hlabel : HasLabel item) {r : Tree.Report} (h : reportOf item = .ok r) :
    r.severity = .text (labelOf item) := by
  cases item with
  | object fields =>
    obtain ⟨t, ht⟩ := hlabel fields rfl
    simp only [reportOf] at h
    cases hlocations : locationsOf (fieldOf fields "locations") with
    | error e => simp [hlocations, Except.map] at h
    | ok backtrace =>
      rw [hlocations] at h
      obtain rfl := Except.ok.inj h
      simp only [labelOf, ht]
  | _ => simp [reportOf] at h

theorem fallsBack_eq (item : Value) : fallsBack item = !Category.isKnown (labelOf item) := by
  rw [fallsBack, Category.isKnown_eq]

theorem Reports.classified {item : Value} {f : Finding} (h : Reports item f) (hlabel : HasLabel item) :
    Classified item f := by
  obtain ⟨r, hr, hy⟩ := h
  have hseverity := severity_of_reportOf hlabel hr
  obtain ⟨known, hcategory⟩ := hy.category
  have hclassify : Category.classify (labelOf item) = f.category := by
    rw [hseverity] at hcategory
    exact (Prod.mk.inj (Except.ok.inj hcategory)).1
  refine ⟨by rw [hy.label, hseverity], fun hknown => ?_, fun hunknown => ?_⟩
  · rw [fallsBack_eq, Bool.not_eq_false'] at hknown
    rw [← hclassify]
    exact Category.label_classify hknown
  · rw [fallsBack_eq, Bool.not_eq_true'] at hunknown
    rw [← hclassify]
    exact Category.classify_unknown hunknown

theorem classified_of_reports {items : List Value} (hlabels : ∀ item ∈ items, HasLabel item) {fs : List Finding}
    (h : List.Forall₂ Reports items fs) :
    List.Forall₂ (fun item f => Reports item f ∧ Classified item f) items fs := by
  induction h with
  | nil => exact .nil
  | cons hitem _ ih =>
    rw [List.forall_mem_cons] at hlabels
    exact .cons ⟨hitem, hitem.classified hlabels.1⟩ (ih hlabels.2)

/-! ## Messages -/

theorem shown_append (log rest : List Log.Event) : shown (log ++ rest) = shown log ++ shown rest := by
  simp [shown]

theorem shown_events {item : Value} (hlabel : HasLabel item) {r : Tree.Report} (h : reportOf item = .ok r) :
    shown r.events = if fallsBack item then [fallbackLine (labelOf item)] else [] := by
  have hclassify : Tree.classify (.text (labelOf item)) =
      .ok (Category.classify (labelOf item), Category.isKnown (labelOf item)) := rfl
  rw [Tree.Report.events, severity_of_reportOf hlabel h, hclassify, fallsBack_eq]
  cases hknown : Category.isKnown (labelOf item) with
  | true => rfl
  | false =>
    have hmessage : (Log.Event.unknownSeverity (.text (labelOf item)) r.file .error).message =
        fallbackLine (labelOf item) := List.append_assoc _ _ _
    rw [Category.classify_unknown hknown, ← hmessage]
    rfl

/-- Taking items in gives one message for each label that no category has, in the order of the items. -/
theorem shown_takeIn {items : List Value} (hlabels : ∀ item ∈ items, HasLabel item) {fs : List Finding}
    (h : List.Forall₂ Reports items fs) (t : Tree) :
    shown (takeIn t items).log = (items.filter fallsBack).map fun item => fallbackLine (labelOf item) := by
  induction h generalizing t with
  | nil => rfl
  | @cons item f items fs hitem _ ih =>
    rw [List.forall_mem_cons] at hlabels
    obtain ⟨r, hr, hy⟩ := hitem
    obtain ⟨log, hadd⟩ := Tree.add_of_yields hy t
    have hlog : log = r.events := by
      rw [← Tree.log_add t r, hadd]
      rfl
    have hfirst := shown_events hlabels.1 hr
    simp only [takeIn, hr, hadd, Outcome.ok]
    rw [shown_append, ih hlabels.2, hlog, hfirst, List.filter_cons]
    split_ifs <;> rfl

/-! ## Lines -/

/-- What a run writes to the standard error: its messages, each with a newline behind it. -/
def Run.errorText (r : Run) : Text := r.messages.flatMap (· ++ [.ofChar '\n'])

theorem all_fallbackLine (label : Text) : (fallbackLine label).all CodePoint.isPrintable := by
  have hfront : (Text.ofString "Unknown severity ").all CodePoint.isPrintable := Text.all_isPrintable (by decide)
  have hrest : (Text.ofString ", filing under error").all CodePoint.isPrintable := Text.all_isPrintable (by decide)
  simp only [fallbackLine, List.all_append, hfront, Text.all_quoted, hrest, Bool.and_self]

theorem all_summary (n : Nat) (format : Format) :
    ("[export] " ++ Text.ofNat n ++ " findings, " ++ format.name : Text).all CodePoint.isPrintable := by
  have hformat : format.name.all Json.isPrintableAscii := by cases format <;> decide
  have hfront : (Text.ofString "[export] ").all Json.isPrintableAscii := by decide
  have hrest : (Text.ofString " findings, ").all Json.isPrintableAscii := by decide
  apply Text.all_isPrintable
  simp only [List.all_append, hfront, Json.all_ofNat, hrest, hformat, Bool.and_self]

/-- A run that ends without failure on a findings file whose severities are texts or missing. What it writes to
the standard error has one line for each item with a label that no category has, in the order of the items, then
the summary, and no other line. Each of these items is stored as an error with the label as it was given, all
others under the category of their label, and the report is on the tree that they are stored in. -/
theorem fallbacks_reported {arguments : List Text} {o : Options}
    (hoptions : Options.ofArguments arguments = .ok o) {folder : Folder} {content : List UInt8}
    (hread : folder.read o.findings = .ok content) {items : List Value} (hitems : readItems content = .ok items)
    (hlabels : ∀ item ∈ items, HasLabel item) (h : (run arguments folder).ending = .ok 0) :
    ∃ format start fs report, o.format = some format ∧ o.tree = .ok start ∧
      (run arguments folder).errorText.lines =
        ((items.filter fallsBack).map fun item => fallbackLine (labelOf item)) ++
          ["[export] " ++ Text.ofNat items.length ++ " findings, " ++ format.name] ∧
      (run arguments folder).errorText.lines.length = (items.filter fallsBack).length + 1 ∧
      List.Forall₂ (fun item f => Reports item f ∧ Classified item f) items fs ∧
      ((takeIn start items).tree.store.files.flatMap (·.findings)).Perm
        (fs.map fun f => { f with hidden := !start.mask.shows f.category }) ∧
      (run arguments folder).Completed o folder (takeIn start items).tree report := by
  rw [run_eq_convert hoptions hread hitems] at h ⊢
  obtain ⟨categories, fs, hhidden, hfs, ⟨report, hcompleted⟩, hmessages⟩ := convert_completed h
  have hstart := tree_of_hidden hhidden
  have htree := tree_takeIn hfs o categories
  have hshown := shown_of_reports hfs
  obtain ⟨format, hformat, -⟩ := render_of_exported hcompleted.rendered
  rw [shown_takeIn hlabels hfs, summary_filledTree hformat categories hshown, ← hfs.length_eq]
    at hmessages
  have hlines : (convert o items folder).errorText.lines = (convert o items folder).messages := by
    refine Text.lines_flatMap ?_
    rw [hmessages, List.forall_mem_append, List.forall_mem_map, List.forall_mem_singleton]
    exact ⟨fun item _ => all_fallbackLine (labelOf item), all_summary items.length format⟩
  refine ⟨format, o.emptyTree categories, fs, report, hformat, hstart, hlines.trans hmessages, ?_, ?_, ?_, ?_⟩
  · rw [hlines, hmessages, List.length_append, List.length_map, List.length_singleton]
  · exact classified_of_reports hlabels hfs
  · have hstored := Tree.findings_foldl_file (({} : Mask).hideAll categories) hshown
    rw [htree]
    exact hstored ▸ (Store.grouped_perm hshown).map _
  · rw [htree]
    exact hcompleted

/-- Items with a label of two lines, with one that a category has, and with none. -/
def oddLabels : List Value :=
  [.object [("file", .text "a.c"), ("severity", .text "odd\n[export]")],
   .object [("file", .text "b.c"), ("severity", .text "style")],
   .object [("file", .text "c.c")]]

theorem lossless_oddLabels : Json.Lossless (986 + 2) (.list oddLabels) := by
  refine .list ?_
  simp only [oddLabels, List.forall_mem_cons, List.not_mem_nil, false_implies, implies_true, and_true]
  refine ⟨.object (by decide) (by decide) ?_, .object (by decide) (by decide) ?_,
    .object (by decide) (by decide) ?_⟩
  all_goals
    simp only [List.forall_mem_cons, List.not_mem_nil, false_implies, implies_true, and_true]
  · exact ⟨.text (by decide), .text (by decide)⟩
  · exact ⟨.text (by decide), .text (by decide)⟩
  · exact .text (by decide)

/-- A folder with a findings file that holds them. -/
def oddFolder : Folder :=
  Folder.put {} ["in.json"] (Utf8.encode (Json.writeIndented 0 (.list oddLabels) ++ [.ofChar '\n']))

theorem oddLabels_reported :
    Options.ofArguments shownReport = .ok (.printed "in.json" .text "" false true [.style]) ∧
    (∃ content, oddFolder.read "in.json" = .ok content ∧ readItems content = .ok oddLabels) ∧
    (∀ item ∈ oddLabels, HasLabel item) ∧ (run shownReport oddFolder).ending = .ok 0 ∧
    (run shownReport oddFolder).errorText.lines =
      ["Unknown severity 'odd\\n[export]', filing under error",
       "Unknown severity '', filing under error", "[export] 3 findings, text"] := by
  have hfindings : Folder.IsPlain "in.json" := ⟨rfl, by decide, by decide, by decide, by decide⟩
  have hread : oddFolder.read "in.json" = _ := Folder.read_put hfindings (by decide) _
  have hitems := readItems_writeIndented lossless_oddLabels
  have hlabels : ∀ item ∈ oddLabels, HasLabel item := by
    simp only [oddLabels, List.forall_mem_cons, List.not_mem_nil, false_implies, implies_true, and_true]
    refine ⟨?_, ?_, ?_⟩ <;> rintro fields ⟨⟩ <;> exact ⟨_, rfl⟩
  have hending : (run shownReport oddFolder).ending = .ok 0 := by
    rw [run_eq_convert ofArguments_shownReport hread hitems]
    rfl
  obtain ⟨format, start, fs, report, hformat, -, hlines, -⟩ :=
    fallbacks_reported ofArguments_shownReport hread hitems hlabels hending
  obtain rfl : .text = format := Option.some.inj hformat
  exact ⟨ofArguments_shownReport, ⟨_, hread, hitems⟩, hlabels, hending, hlines.trans (by decide +kernel)⟩

end Convert
end Findings
