import Findings.Proofs.Convert.CommandLine
import Findings.Proofs.Convert.Delivery
import Findings.Proofs.Convert.JsonItems
import Findings.Proofs.Tree.Filing

/-!
# A JSON report converted again

A run for a JSON report with full paths writes the report on what its items report, if it fits
(`convert_jsonReport`). A second run with the same options on that report gives it back (`reimport_fixpoint`): its items report the
findings that the first run covered, in the same order, and covering these again leaves nothing out.
-/

namespace Findings.Convert

/-- The mask of a run that hides categories. -/
def maskOf (categories : List Category) : Mask := categories.foldl (fun m c => m.set c false) {}

/-- The policy of a run for a report with full paths. -/
def policyOf (visibleOnly : Bool) : PathPolicy where
  showFullPath := true
  saveFullPath := true
  saveAllErrors := !visibleOnly

/-- The tree that a run for such a report takes findings into. -/
def treeOf (categories : List Category) (visibleOnly : Bool) (fs : List Finding) : Tree where
  view := fs.foldl Tree.file { mask := maskOf categories }
  policy := policyOf visibleOnly

/-- The findings that it reports on. -/
def reported (categories : List Category) (visibleOnly : Bool) (fs : List Finding) : List Finding :=
  Tree.covered (maskOf categories) (!visibleOnly) fs

/-- The report. -/
def reportOn (categories : List Category) (visibleOnly : Bool) (fs : List Finding) : Text :=
  Report.json ((reported categories visibleOnly fs).map (.ofFinding (policyOf visibleOnly)))

/-! ## One run -/

theorem exported_treeOf (categories : List Category) (visibleOnly : Bool) {fs : List Finding}
    (h : ∀ f ∈ fs, f.Normal) :
    (treeOf categories visibleOnly fs).exported (.text Format.json.name) =
      .ok (reportOn categories visibleOnly fs) := by
  have hentries : (treeOf categories visibleOnly fs).store.entries (policyOf visibleOnly) =
      (reported categories visibleOnly fs).map (.ofFinding (policyOf visibleOnly)) :=
    Tree.entries_foldl_file (maskOf categories) (policyOf visibleOnly) fun f hf => (h f hf).shown
  have hlegible : ∀ e ∈ (reported categories visibleOnly fs).map (Report.Entry.ofFinding (policyOf visibleOnly)),
      (Report.entryValue e).isLegible :=
    List.forall_mem_map.mpr fun f hf => (h f (Tree.mem_of_mem_covered hf)).isLegible _
  have hrender : (treeOf categories visibleOnly fs).exported (.text Format.json.name) =
      Report.render .json ((treeOf categories visibleOnly fs).store.entries (policyOf visibleOnly)) := rfl
  rw [hrender, hentries, Report.render_json, if_pos hlegible, reportOn]

section Run

variable (findings : Text) {out : Text} (categories : List Category) (visibleOnly : Bool)
  (hout : Folder.IsPlain out) {folder : Folder}
include hout

theorem write_jsonReport (hsub : [out] ∉ folder.subfolders) {fs : List Finding} (hfs : ∀ f ∈ fs, f.Normal)
    (hfits : Fits folder.disk (Utf8.encode (reportOn categories visibleOnly fs))) (messages : List Text) :
    let r := write (.jsonReport findings out categories visibleOnly)
      (treeOf categories visibleOnly fs) messages folder out
    r.ending = .ok 0 ∧
      r.folder = folder.put [out] (Utf8.encode (reportOn categories visibleOnly fs)) := by
  have hexported : (treeOf categories visibleOnly fs).exported
      (Options.jsonReport findings out categories visibleOnly).formatValue =
        .ok (reportOn categories visibleOnly fs) := exported_treeOf categories visibleOnly hfs
  have hopened : Fits ((folder.put [out] []).faultOf (.file [out]))
      (Utf8.encode (reportOn categories visibleOnly fs)) := hfits
  simp only [write, Folder.create_plain hout hsub, deliver_of_fits hexported hopened, Folder.put_put, and_self]

theorem write_subfolder (o : Options) (t : Tree) (messages : List Text)
    (hsub : [out] ∈ folder.subfolders) : (write o t messages folder out).ending = .ok 1 := by
  simp only [write, Folder.create_subfolder hout hsub]
  rfl

theorem convert_eq_write {items : List Value} {fs : List Finding}
    (h : List.Forall₂ Reports items fs) :
    ∃ messages, convert (.jsonReport findings out categories visibleOnly) items folder =
      write (.jsonReport findings out categories visibleOnly) (treeOf categories visibleOnly fs)
        messages folder out := by
  obtain ⟨c, cs, rfl⟩ := List.exists_cons_of_ne_nil hout.ne_nil
  have htaken : taken (.jsonReport findings (c :: cs) categories visibleOnly) items =
      (.ok (treeOf categories visibleOnly fs), shown (takeIn (treeOf categories visibleOnly []) items).log) :=
    taken_of_reports rfl h
  refine ⟨shown (takeIn (treeOf categories visibleOnly []) items).log, ?_⟩
  simp only [convert, htaken]
  rfl

/-- A run for a JSON report on items that all report a normal finding writes the report if it fits, unless the
name for it is a subfolder's. -/
theorem convert_jsonReport (hsub : [out] ∉ folder.subfolders) {items : List Value}
    {fs : List Finding} (h : List.Forall₂ Reports items fs) (hfs : ∀ f ∈ fs, f.Normal)
    (hfits : Fits folder.disk (Utf8.encode (reportOn categories visibleOnly fs))) :
    let r := convert (.jsonReport findings out categories visibleOnly) items folder
    r.ending = .ok 0 ∧
      r.folder = folder.put [out] (Utf8.encode (reportOn categories visibleOnly fs)) := by
  obtain ⟨messages, hwrite⟩ : ∃ messages, _ = write _ _ messages folder out :=
    convert_eq_write findings categories visibleOnly hout h
  rw [hwrite]
  exact write_jsonReport findings categories visibleOnly hout hsub hfs hfits messages

/-- Only such runs end without failure. -/
theorem reports_of_convert {items : List Value} (hitems : ∀ fs, List.Forall₂ Reports items fs → ∀ f ∈ fs, f.Normal)
    (h : (convert (.jsonReport findings out categories visibleOnly) items folder).ending = .ok 0) :
    [out] ∉ folder.subfolders ∧ ∃ fs, List.Forall₂ Reports items fs ∧
      Fits folder.disk (Utf8.encode (reportOn categories visibleOnly fs)) := by
  have hfs : ∃ fs, List.Forall₂ Reports items fs := by
    cases htaken : (taken (.jsonReport findings out categories visibleOnly) items).1 with
    | error e => simp [convert_of_taken_error htaken] at h
    | ok t =>
      obtain ⟨-, fs, -, hfs, -⟩ := reports_of_taken htaken
      exact ⟨fs, hfs⟩
  obtain ⟨fs, hreports⟩ := hfs
  obtain ⟨messages, hwrite⟩ : ∃ messages, _ = write _ _ messages folder out :=
    convert_eq_write findings categories visibleOnly hout hreports
  rw [hwrite] at h
  have hsub : [out] ∉ folder.subfolders := by
    intro hsub
    rw [write_subfolder hout _ _ _ hsub] at h
    simp at h
  simp only [write, Folder.create_plain hout hsub] at h
  obtain ⟨report, hreport, hfits⟩ := fits_of_deliver h
  obtain rfl := Except.ok.inj
    ((exported_treeOf categories visibleOnly (hitems fs hreports)).symm.trans hreport)
  exact ⟨hsub, fs, hreports, hfits⟩

end Run

/-! ## Two runs -/

theorem reported_relabelled (categories : List Category) (visibleOnly : Bool) (fs : List Finding) :
    reported categories visibleOnly ((reported categories visibleOnly fs).map .relabelled) =
      (reported categories visibleOnly fs).map .relabelled := by
  rw [reported, Tree.covered_map Finding.relabelled_file Finding.relabelled_category, reported,
    Tree.covered_covered]

/-- The report on what a report covers is the report. -/
theorem reportOn_relabelled (categories : List Category) (visibleOnly : Bool) (fs : List Finding) :
    reportOn categories visibleOnly ((reported categories visibleOnly fs).map .relabelled) =
      reportOn categories visibleOnly fs := by
  rw [reportOn, reported_relabelled, List.map_map]
  rfl

theorem forall₂_reports_entryValue {policy : PathPolicy} (hpolicy : policy.saveFullPath = true)
    {fs : List Finding} (h : ∀ f ∈ fs, f.Normal) :
    List.Forall₂ Reports (fs.map fun f => Report.entryValue (.ofFinding policy f))
      (fs.map .relabelled) := by
  rw [List.forall₂_map_left_iff, List.forall₂_map_right_iff, List.forall₂_same]
  exact fun f hf => reports_entryValue hpolicy (h f hf)

/-- What a first run wrote, a second run reads and writes again. -/
theorem convert_again {categories : List Category} {visibleOnly : Bool} {fs : List Finding}
    (h : ∀ f ∈ fs, f.Normal) {out : Text} (hout : Folder.IsPlain out) {folder : Folder}
    (hsub : [out] ∉ folder.subfolders)
    (hfits : Fits folder.disk (Utf8.encode (reportOn categories visibleOnly fs))) (findings : Text) :
    ∃ items, readItems (Utf8.encode (reportOn categories visibleOnly fs)) = .ok items ∧
      let r := convert (.jsonReport findings out categories visibleOnly) items folder
      r.ending = .ok 0 ∧
        r.folder = folder.put [out] (Utf8.encode (reportOn categories visibleOnly fs)) := by
  have hnormal : ∀ f ∈ reported categories visibleOnly fs, f.Normal := fun f hf =>
    h f (Tree.mem_of_mem_covered hf)
  have hpolicy : (policyOf visibleOnly).saveFullPath = true := rfl
  refine ⟨_, readItems_json hpolicy hnormal, ?_⟩
  rw [← reportOn_relabelled] at hfits ⊢
  exact convert_jsonReport findings categories visibleOnly hout hsub
    (forall₂_reports_entryValue hpolicy hnormal) (List.forall_mem_map.mpr fun f hf => (hnormal f hf).relabelled) hfits

theorem run_eq_convert {arguments : List Text} {o : Options}
    (hoptions : Options.ofArguments arguments = .ok o) {folder : Folder} {content : List UInt8}
    (hread : folder.read o.findings = .ok content) {items : List Value}
    (hitems : readItems content = .ok items) : run arguments folder = convert o items folder := by
  simp only [run, hoptions, hread, hitems]

/-- A run with options that ends without failure has read its findings file. -/
theorem items_of_run {arguments : List Text} {o : Options} (hoptions : Options.ofArguments arguments = .ok o)
    {folder : Folder} (h : (run arguments folder).ending = .ok 0) :
    ∃ content items, folder.read o.findings = .ok content ∧ readItems content = .ok items := by
  cases hread : folder.read o.findings with
  | error e => simp [run, hoptions, hread] at h
  | ok content =>
    cases hitems : readItems content with
    | error e => simp [run, hoptions, hread, hitems] at h
    | ok items => exact ⟨content, items, rfl, hitems⟩

/-- A run for a JSON report that ends without failure has read its arguments, too. -/
theorem of_run_jsonReport {findings out : Text} (hfindings : wordOf findings = .ok (.operand findings))
    (hout : wordOf out = .ok (.operand out)) {labels : List Text} {visibleOnly : Bool}
    {folder : Folder} (h : (run (jsonReport findings out labels visibleOnly) folder).ending = .ok 0) :
    ∃ categories content items, labels.mapM Category.ofLabel? = some categories ∧
      folder.read findings = .ok content ∧ readItems content = .ok items := by
  have hoptions := ofArguments_jsonReport hfindings hout labels visibleOnly
  cases hlabels : labels.mapM Category.ofLabel? with
  | none =>
    rw [hlabels] at hoptions
    obtain ⟨u, hu, hhelp⟩ := hoptions
    cases u <;> simp [run, hu] at h hhelp
  | some categories =>
    rw [hlabels] at hoptions
    obtain ⟨content, items, hread, hitems⟩ := items_of_run hoptions h
    exact ⟨categories, content, items, rfl, hread, hitems⟩

/-- The report on what the items of a findings file report. -/
def IsReportOn (folder : Folder) (name : Text) (labels : List Text) (visibleOnly : Bool)
    (report : Text) : Prop :=
  ∃ categories content items fs, labels.mapM Category.ofLabel? = some categories ∧
    folder.read name = .ok content ∧ readItems content = .ok items ∧
    List.Forall₂ Reports items fs ∧ report = reportOn categories visibleOnly fs

/-- Messages and identifiers in a findings file are texts, or count as not given. -/
def TextsIn (folder : Folder) (name : Text) : Prop :=
  ∀ content items, folder.read name = .ok content → readItems content = .ok items →
    ∀ item ∈ items, HasTexts item

/-- A name for a report: it is no option, and a file in the folder can have it. -/
structure IsReportName (name : Text) : Prop where
  plain : Folder.IsPlain name
  operand : wordOf name = .ok (.operand name)

theorem isReportName_first : IsReportName "first.json" :=
  ⟨⟨rfl, by decide, by decide, by decide, by decide⟩, rfl⟩

section Runs

variable {findings out : Text} (hfindings : wordOf findings = .ok (.operand findings))
  (hout : IsReportName out) {labels : List Text} {visibleOnly : Bool} {folder : Folder}
include hfindings hout

/-- A run that ends without failure wrote the report on what the items of its findings file report, and
these are normal findings. -/
theorem folder_of_run
    (htexts : TextsIn folder findings)
    (h : (run (jsonReport findings out labels visibleOnly) folder).ending = .ok 0) :
    ∃ categories fs, labels.mapM Category.ofLabel? = some categories ∧
      (∀ f ∈ fs, Finding.Normal f) ∧
      IsReportOn folder findings labels visibleOnly (reportOn categories visibleOnly fs) ∧
      [out] ∉ folder.subfolders ∧ Fits folder.disk (Utf8.encode (reportOn categories visibleOnly fs)) ∧
      (run (jsonReport findings out labels visibleOnly) folder).folder =
        folder.put [out] (Utf8.encode (reportOn categories visibleOnly fs)) := by
  obtain ⟨categories, content, items, hlabels, hread, hitems⟩ :=
    of_run_jsonReport hfindings hout.operand h
  have hoptions := ofArguments_jsonReport hfindings hout.operand labels visibleOnly
  rw [hlabels] at hoptions
  rw [run_eq_convert hoptions hread hitems] at h ⊢
  have hnormal : ∀ fs, List.Forall₂ Reports items fs → ∀ f ∈ fs, f.Normal := by
    intro fs hreports f hf
    obtain ⟨item, hitem, hreport⟩ := exists_of_forall₂ hreports hf
    exact hreport.normal (readItems_readable hitems item hitem)
      (htexts content items hread hitems item hitem)
  obtain ⟨hsub, fs, hreports, hfits⟩ :=
    reports_of_convert findings categories visibleOnly hout.plain hnormal h
  have hreport : IsReportOn folder findings labels visibleOnly (reportOn categories visibleOnly fs) :=
    ⟨categories, content, items, fs, hlabels, hread, hitems, hreports, rfl⟩
  exact ⟨categories, fs, hlabels, hnormal fs hreports, hreport, hsub, hfits,
    (convert_jsonReport findings categories visibleOnly hout.plain hsub hreports (hnormal fs hreports) hfits).2⟩

/-- A run on the report on normal findings writes that report. -/
theorem run_again {categories : List Category}
    (hlabels : labels.mapM Category.ofLabel? = some categories) {fs : List Finding}
    (hnormal : ∀ f ∈ fs, f.Normal)
    (hread : folder.read findings = .ok (Utf8.encode (reportOn categories visibleOnly fs)))
    (hsub : [out] ∉ folder.subfolders)
    (hfits : Fits folder.disk (Utf8.encode (reportOn categories visibleOnly fs))) :
    let r := run (jsonReport findings out labels visibleOnly) folder
    r.ending = .ok 0 ∧
      r.folder = folder.put [out] (Utf8.encode (reportOn categories visibleOnly fs)) := by
  have hoptions := ofArguments_jsonReport hfindings hout.operand labels visibleOnly
  rw [hlabels] at hoptions
  obtain ⟨items, hitems, hconvert⟩ := convert_again hnormal hout.plain hsub hfits findings
  rw [run_eq_convert hoptions hread hitems]
  exact hconvert

end Runs

/-- A run for a JSON report with full paths, and then a run on that report with the same options: the first
one wrote the report on its findings file, and the second one ends without failure too and leaves everything as
it is, so that it wrote the same report. It writes the same report under any other name as well. -/
theorem reimport_fixpoint (folder : Folder) {name : Text}
    (hname : wordOf name = .ok (.operand name)) (labels : List Text) (visibleOnly : Bool)
    (htexts : TextsIn folder name)
    (hrun : (run (jsonReport name "first.json" labels visibleOnly) folder).ending = .ok 0) :
    let after := (run (jsonReport name "first.json" labels visibleOnly) folder).folder
    let again := run (jsonReport "first.json" "first.json" labels visibleOnly) after
    ∃ report, IsReportOn folder name labels visibleOnly report ∧
      after.read "first.json" = .ok (Utf8.encode report) ∧
      again.ending = .ok 0 ∧ again.folder = after ∧
      ∀ second, IsReportName second → [second] ∉ after.subfolders →
        let aside := run (jsonReport "first.json" second labels visibleOnly) after
        aside.ending = .ok 0 ∧ aside.folder.read second = .ok (Utf8.encode report) := by
  intro after again
  obtain ⟨categories, fs, hlabels, hnormal, hreport, hsub, hfits, hafter⟩ :=
    folder_of_run hname isReportName_first htexts hrun
  change after = _ at hafter
  have hread : after.read "first.json" =
      .ok (Utf8.encode (reportOn categories visibleOnly fs)) := by
    rw [hafter]
    exact Folder.read_put isReportName_first.plain hsub _
  have hsubAfter : [Text.ofString "first.json"] ∉ after.subfolders := by rwa [hafter]
  have hfitsAfter : Fits after.disk (Utf8.encode (reportOn categories visibleOnly fs)) := by rwa [hafter]
  obtain ⟨hending, hfolder⟩ :=
    run_again isReportName_first.operand isReportName_first hlabels hnormal hread hsubAfter hfitsAfter
  refine ⟨_, hreport, hread, hending, ?_, fun second hsecond hsubSecond => ?_⟩
  · -- The file is emptied when it is opened for the second report, but by then it was read.
    calc again.folder
        = after.put ["first.json"] (Utf8.encode (reportOn categories visibleOnly fs)) := hfolder
      _ = after := by rw [hafter, Folder.put_put]
  · obtain ⟨hending, hfolder⟩ :=
      run_again isReportName_first.operand hsecond hlabels hnormal hread hsubSecond hfitsAfter
    refine ⟨hending, ?_⟩
    rw [hfolder]
    exact Folder.read_put hsecond.plain hsubSecond _

/-- Items with an unknown severity, paths that are not canonical, one file twice with another between, a
surrogate, and a negative numeral for a line. -/
def mixedItems : List Value :=
  [.object [("file", .text "b//x.c"), ("severity", .text "odd"), ("msg", .text [.ofNat 0xD800]),
     ("locations", .list [.object [("line", .text "-7")]])],
   .object [("file", .text "a.c"), ("severity", .text "style")],
   .object [("file", .text "b/./x.c"), ("id", .text "q")]]

theorem lossless_mixedItems : Json.Lossless (984 + 4) (.list mixedItems) := by
  refine .list ?_
  simp only [mixedItems, List.forall_mem_cons, List.not_mem_nil, false_implies, implies_true, and_true]
  refine ⟨.object (by decide) (by decide) ?_, .object (by decide) (by decide) ?_,
    .object (by decide) (by decide) ?_⟩
  all_goals
    simp only [List.forall_mem_cons, List.not_mem_nil, false_implies, implies_true, and_true]
  · refine ⟨.text (by decide), .text (by decide), .text (by decide), .list ?_⟩
    simp only [List.forall_mem_cons, List.not_mem_nil, false_implies, implies_true, and_true]
    refine .object (by decide) (by decide) ?_
    simp only [List.forall_mem_cons, List.not_mem_nil, false_implies, implies_true, and_true]
    exact .text (by decide)
  · exact ⟨.text (by decide), .text (by decide)⟩
  · exact ⟨.text (by decide), .text (by decide)⟩

theorem hasTexts_mixedItems : ∀ item ∈ mixedItems, HasTexts item := by
  simp only [mixedItems, List.forall_mem_cons, List.not_mem_nil, false_implies, implies_true, and_true]
  refine ⟨?_, ?_, ?_⟩
  all_goals
    rintro fields ⟨⟩ key hkey
    rcases List.mem_pair.mp hkey with rfl | rfl <;> exact ⟨_, rfl⟩

/-- A folder with a findings file that holds them. -/
def mixedFolder : Folder :=
  Folder.put {} ["in.json"] (Utf8.encode (Json.writeIndented 0 (.list mixedItems) ++ [.ofChar '\n']))

theorem mixedItems_reimport :
    wordOf "in.json" = .ok (.operand "in.json") ∧ TextsIn mixedFolder "in.json" ∧
    (run (jsonReport "in.json" "first.json" ["style"] true) mixedFolder).ending = .ok 0 ∧
    let after := (run (jsonReport "in.json" "first.json" ["style"] true) mixedFolder).folder
    let again := run (jsonReport "first.json" "first.json" ["style"] true) after
    again.ending = .ok 0 ∧ again.folder = after := by
  have hname : IsReportName "in.json" :=
    ⟨⟨rfl, by decide, by decide, by decide, by decide⟩, rfl⟩
  have hread : mixedFolder.read "in.json" = _ := Folder.read_put hname.plain (by decide) _
  have hitems := readItems_writeIndented lossless_mixedItems
  have htexts : TextsIn mixedFolder "in.json" := by
    intro content items hcontent hitems'
    obtain rfl := Except.ok.inj (hread.symm.trans hcontent)
    obtain rfl := Except.ok.inj (hitems.symm.trans hitems')
    exact hasTexts_mixedItems
  have hintake : (takeIn {} mixedItems).failure = none := rfl
  obtain ⟨fs, hfs⟩ := reports_of_takeIn hintake
  have hnormal : ∀ f ∈ fs, f.Normal := by
    intro f hf
    obtain ⟨item, hitem, hreport⟩ := exists_of_forall₂ hfs hf
    exact hreport.normal (readItems_readable hitems item hitem) (hasTexts_mixedItems item hitem)
  have hrun : (run (jsonReport "in.json" "first.json" ["style"] true) mixedFolder).ending = .ok 0 := by
    have hoptions := ofArguments_jsonReport hname.operand isReportName_first.operand ["style"] true
    rw [run_eq_convert hoptions hread hitems]
    exact (convert_jsonReport _ _ _ isReportName_first.plain (by decide) hfs hnormal (fits_none _)).1
  obtain ⟨report, -, -, hending, hfolder, -⟩ :=
    reimport_fixpoint mixedFolder hname.operand ["style"] true htexts hrun
  exact ⟨hname.operand, htexts, hrun, hending, hfolder⟩

end Findings.Convert
