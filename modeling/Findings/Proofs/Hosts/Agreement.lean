import Findings.Proofs.Convert.Reimport
import Findings.Proofs.Hosts.Notices
import Findings.Proofs.Server.Answers

/-!
# The two hosts agree

The converter fixes the mask and then takes the findings in; the server takes them in one request after
another, while categories are hidden in between (`Scheduled`). Both trees end with the same groups, with the
flags of the mask at the end, and this mask is that of the converter, since the order of hiding makes no
difference. A report depends on the groups and the policy for saving alone (`entries_congr`). So the converter
prints what the server sends (`hosts_agree`).
-/

namespace Findings

/-! ## What a report depends on -/

/-- The policies write the same paths of the same findings into reports. -/
structure PathPolicy.SavesAlike (p p' : PathPolicy) : Prop where
  all : p.saveAllErrors = p'.saveAllErrors
  path : ∀ path, Path.toPersisted p path = Path.toPersisted p' path

theorem Store.entries_congr {s s' : Store} (hfiles : s.files = s'.files) {p p' : PathPolicy}
    (hpolicy : p.SavesAlike p') : s.entries p = s'.entries p' := by
  have hselect : s.select p = s'.select p' := by
    rw [select, select, traverse, traverse, groups, groups, hfiles, hpolicy.all]
  have hentry : Report.Entry.ofFinding p = Report.Entry.ofFinding p' := by
    funext f
    simp only [Report.Entry.ofFinding, hpolicy.path]
  rw [entries, entries, hselect, hentry]

theorem Store.exported_congr {s s' : Store} (hfiles : s.files = s'.files) {p p' : PathPolicy}
    (hpolicy : p.SavesAlike p') (format : Value) : s.exported format p = s'.exported format p' := by
  rw [exported, exported, entries_congr hfiles hpolicy]

/-! ## The converter -/

namespace Convert

/-- A run for a report on the standard output prints the report on what its items report. -/
theorem convert_print {o : Options} {format : Format} {categories : List Category}
    (hformat : o.format = some format) (hout : o.out = none) (hhidden : o.hidden = categories.map some)
    {items : List Value} {fs : List Finding} (hitems : List.Forall₂ Reports items fs) {report : Text}
    (hreport : (fs.foldl Tree.file { mask := ({} : Mask).hideAll categories }).store.exported
      (.text format.name) o.policy = .ok report) (folder : Folder) :
    (convert o items folder).ending = .ok 0 ∧ (convert o items folder).output = report := by
  have hvalue : o.formatValue = .text format.name := by rw [Options.formatValue, hformat]
  have hexported : (o.filledTree categories fs).exported o.formatValue = .ok report := by
    rw [hvalue]
    exact hreport
  simp only [convert, taken_of_reports hhidden hitems, hout, print_of_exported hexported, and_self]

end Convert

/-! ## The server -/

namespace Server

open Notice

/-- Requests that post findings in their order and hide categories, one request each, at any points between. -/
inductive Scheduled : List Notice → List Category → List Request → Prop where
  | nil : Scheduled [] [] []
  | post {n : Notice} {r : Request} {ns : List Notice} {cs : List Category} {rs : List Request}
    (h : r.Posts n) (rest : Scheduled ns cs rs) : Scheduled (n :: ns) cs (r :: rs)
  | hide {c : Category} {r : Request} {ns : List Notice} {cs : List Category} {rs : List Request}
    (h : r.Hides c) (rest : Scheduled ns cs rs) : Scheduled ns (c :: cs) (r :: rs)

section Schedule

variable {ns : List Notice} {cs : List Category} {rs : List Request} (h : Scheduled ns cs rs)
include h

theorem Scheduled.reports : rs.filterMap Request.report? = ns.map Notice.report := by
  induction h with
  | nil => rfl
  | post hpost _ ih =>
    rw [List.filterMap_cons_some (Request.report?_eq_some.mpr hpost.operation?_eq), List.map_cons, ih]
  | @hide _ r _ _ _ hhide _ ih =>
    have hnone : r.report? = none := by rw [Request.report?, hhide.operation?_eq]
    rw [List.filterMap_cons_none hnone, ih]

theorem Scheduled.not_clear : ∀ r ∈ rs, r.operation? ≠ some .clear := by
  induction h with
  | nil => exact fun r hr => absurd hr List.not_mem_nil
  | post hpost _ ih =>
    exact List.forall_mem_cons.mpr ⟨by simp [hpost.operation?_eq], ih⟩
  | hide hhide _ ih =>
    exact List.forall_mem_cons.mpr ⟨by simp [hhide.operation?_eq], ih⟩

/-- Posting leaves mask and policy as they are, and each request to hide a category hides it. -/
theorem Scheduled.mask_run (s : Server) :
    (s.run rs).tree.mask = s.tree.mask.hideAll cs ∧ (s.run rs).tree.policy = s.tree.policy := by
  induction h generalizing s with
  | nil => exact ⟨rfl, rfl⟩
  | @post n r _ _ _ hpost _ ih =>
    obtain ⟨f, hfiled⟩ := Tree.Report.filed_ofTexts n.report_ofTexts
    have hstep : (s.step r).1.tree = { s.tree with view := Tree.file s.tree.view f } := by
      simp only [step_fst, hpost.operation?_eq, Option.elim_some, after, Tree.step, Tree.add_eq, hfiled]
      rfl
    obtain ⟨hmask, hpolicy⟩ := ih (s.step r).1
    rw [hstep] at hmask hpolicy
    exact ⟨hmask, hpolicy⟩
  | @hide c r _ _ _ hhide _ ih =>
    have hstep : (s.step r).1 = s.after (.showCategory (.real c) false) := by
      rw [step_fst, hhide.operation?_eq, Option.elim_some]
    rw [run, hstep]
    exact ih (s.after (.showCategory (.real c) false))

end Schedule

end Server

/-! ## Agreement -/

/-- The settings of a server that saves as a run of the converter does, with nothing hidden at the start. -/
structure Settings.Suits (s : Settings) (directory : Text) (fullPath visibleOnly : Bool) : Prop where
  checkDirectory : s.checkDirectory = directory
  saveFullPath : s.saveFullPath = fullPath
  saveAllErrors : s.saveAllErrors = !visibleOnly
  hidden : s.hiddenCategories = []

/-- The variables of the environment that ask for such settings. -/
def Environment.asking (directory : Text) (fullPath visibleOnly : Bool) : Environment where
  entries :=
    [("CHECK_DIR", directory), ("SAVE_FULL_PATH", if fullPath then "true" else "false"),
     ("SAVE_ALL_ERRORS", if visibleOnly then "false" else "true")]

theorem Settings.suits_asking (directory : Text) (fullPath visibleOnly : Bool) :
    (ofEnvironment (.asking directory fullPath visibleOnly)).Suits directory fullPath visibleOnly where
  checkDirectory := rfl
  saveFullPath := by cases fullPath <;> rfl
  saveAllErrors := by cases visibleOnly <;> rfl
  hidden := rfl

/-- The named file tells findings to the converter. -/
structure Convert.Folder.Tells (folder : Folder) (name : Text) (ns : List Notice) : Prop where
  operand : wordOf name = .ok (.operand name)
  items : ∃ content items, folder.read name = .ok content ∧ readItems content = .ok items ∧
    List.Forall₂ (Notice.Told .converter) ns items

section Agreement

open Findings.Convert Server Notice

variable {ns : List Notice}

theorem reports_of_told {items : List Value} (htold : List.Forall₂ (Told .converter) ns items)
    {fs : List Finding} (hyields : List.Forall₂ Tree.Report.Yields (ns.map Notice.report) fs) :
    List.Forall₂ Convert.Reports items fs := by
  induction htold generalizing fs with
  | nil =>
    cases hyields
    exact .nil
  | cons hn _ ih =>
    cases hyields with
    | cons hy hrest => exact .cons ⟨_, reportOf_told hn, hy⟩ (ih hrest)

/-- Two minus signs are no absolute directory, so that nothing is taken away for them, as for none. -/
theorem strip_givenDirectory (path directory : Text) :
    Path.strip path (givenDirectory directory) = Path.strip path directory := by
  unfold givenDirectory
  split_ifs with h
  · have hrelative : Path.isAbsolute (Text.ofString "--") = false := rfl
    simp [Path.strip, h, hrelative]
  · rfl

theorem Settings.Suits.savesAlike {s : Settings} {directory : Text} {fullPath visibleOnly : Bool}
    (h : s.Suits directory fullPath visibleOnly) (name : Text) (format : Format)
    (categories : List Category) :
    s.policy.SavesAlike (Options.printed name format directory fullPath visibleOnly categories).policy where
  all := h.saveAllErrors
  path path := by
    simp only [Path.toPersisted, Settings.policy, Options.policy, Options.printed, h.saveFullPath,
      h.checkDirectory, strip_givenDirectory]

theorem tells_put (h : ∀ n ∈ ns, n.Writable) {name : Text} (hname : IsReportName name) {folder : Folder}
    (hsub : [name] ∉ folder.subfolders) : (folder.put [name] (findingsFile ns)).Tells name ns where
  operand := hname.operand
  items := by
    refine ⟨_, _, Folder.read_put hname.plain hsub _, readItems_findingsFile h, ?_⟩
    rw [List.forall₂_map_right_iff, List.forall₂_same]
    exact fun n _ => told_value .converter n

/-- The tree of the server has the groups that the converter has from the same findings, and its report is
that of the converter. -/
theorem exported_run {settings : Settings} {directory : Text} {fullPath visibleOnly : Bool}
    (hsettings : settings.Suits directory fullPath visibleOnly) {hidden categories : List Category}
    (hsame : ∀ c, c ∈ hidden ↔ c ∈ categories) {requests : List Request}
    (h : Scheduled ns hidden requests) (applications : Registry) (sink : Sink) (name : Text)
    (format : Format) :
    ((start settings applications sink).run requests).tree.exported (.text format.name) =
      ((reported requests).foldl Tree.file { mask := ({} : Mask).hideAll categories }).store.exported
        (.text format.name)
        (Options.printed name format directory fullPath visibleOnly categories).policy := by
  obtain ⟨hmask, hpolicy⟩ := h.mask_run (start settings applications sink)
  have hstart : (start settings applications sink).tree.mask = {} := by
    change settings.mask = {}
    rw [Settings.mask, hsettings.hidden]
    rfl
  have hconsistent := Filtered.consistent_empty settings.mask
  have hfiles : ((start settings applications sink).run requests).tree.store.files =
      ((reported requests).foldl Tree.file { mask := ({} : Mask).hideAll categories }).store.files := by
    rw [files_run (s := start settings applications sink) h.not_clear hconsistent rfl, hmask, hstart,
      Mask.hideAll_congr hsame, Tree.files_foldl_file _ fun f hf => hidden_of_mem_reported hf]
  have hsaves := hsettings.savesAlike name format categories
  rw [Tree.exported, hpolicy]
  exact Store.exported_congr hfiles hsaves _

/-- Converter and server give the same report. For any findings, format, checked directory, choice of full
paths and of shown findings only, and categories to hide: what a run of the converter with these options
prints is what a server with these settings sends for an export, after requests that post the same findings
in order and hide each of these categories at any points between. All findings without surrogates and with
line numbers of no more digits than are read can be told to both hosts, and any of these options can be asked
for. -/
theorem hosts_agree (ns : List Notice) (format : Format) (directory : Text) (fullPath visibleOnly : Bool)
    (categories : List Category) :
    ((∀ n ∈ ns, n.Writable) →
      (∀ (folder : Folder) (name : Text), IsReportName name → [name] ∉ folder.subfolders →
        (folder.put [name] (findingsFile ns)).Tells name ns) ∧
      ∀ n ∈ ns, (posting n).Posts n) ∧
    (Settings.ofEnvironment (.asking directory fullPath visibleOnly)).Suits directory fullPath
      visibleOnly ∧
    (∀ c, (concealing c).Hides c) ∧ (exporting format).Exports format ∧
    ∀ (folder : Folder) (name : Text), folder.Tells name ns →
      ∀ settings : Settings, settings.Suits directory fullPath visibleOnly →
      ∀ (applications : Registry) (sink : Sink), sink.Works →
      ∀ (hidden : List Category) (requests : List Request), (∀ c, c ∈ hidden ↔ c ∈ categories) →
        Scheduled ns hidden requests →
      ∀ r : Request, r.Exports format →
        let run := Convert.run
          (printedReport name format directory fullPath visibleOnly categories) folder
        let s := (start settings applications sink).run requests
        run.ending = .ok 0 ∧ (s.step r).2.response = ⟨200, .report format run.output⟩ := by
  refine ⟨fun hns => ⟨fun folder name hname hsub => tells_put hns hname hsub,
    fun n hn => posts_posting (hns n hn)⟩, Settings.suits_asking directory fullPath visibleOnly,
    hides_concealing, exports_exporting format, ?_⟩
  intro folder name htells settings hsettings applications sink hsink hidden requests hsame h r hexports
    run s
  have hyields := yields_reported requests
  rw [h.reports] at hyields
  have htexts := hasTexts_run (s := start settings applications sink) rfl requests
  have hlines := legibleLines_run (s := start settings applications sink) rfl requests
  have hworks : s.sink.Works := by
    have hkept : s.sink = sink := congrArg Server.sink (run_operations (start settings applications sink) _)
    rwa [hkept]
  obtain ⟨report, hreport, hresponse⟩ := exports_response hexports hworks htexts hlines
  obtain ⟨content, items, hread, hitems, htold⟩ := htells.items
  have hrun : run = convert (.printed name format directory fullPath visibleOnly categories) items folder :=
    run_eq_convert
      (ofArguments_printedReport htells.operand format directory fullPath visibleOnly categories)
      hread hitems
  rw [exported_run hsettings hsame h applications sink name format] at hreport
  obtain ⟨hending, houtput⟩ := convert_print rfl rfl rfl (reports_of_told htold hyields) hreport folder
  rw [hrun]
  exact ⟨hending, by rw [hresponse, houtput]⟩

/-! ## A category hidden between two findings -/

def styleNotice : Notice where
  file := "/src/a.c"
  severity := "style"
  message := "unused"
  id := "q"
  locations := [("/src/a.c", 3)]

def errorNotice : Notice where
  file := "/src/b.c"
  severity := "error"
  message := "null"
  id := ""

/-- A folder with a findings file that holds both. -/
def noticesFolder : Folder := Folder.put {} ["in.json"] (findingsFile [styleNotice, errorNotice])

/-- The category of the first finding is hidden after it came. -/
def noticesRequests : List Request := [posting styleNotice, concealing .style, posting errorNotice]

theorem concealed_between_agree :
    noticesFolder.Tells "in.json" [styleNotice, errorNotice] ∧
    Scheduled [styleNotice, errorNotice] [.style] noticesRequests ∧
    ∀ format,
      let run := Convert.run (printedReport "in.json" format "/src" false true [.style]) noticesFolder
      let s := (start (.ofEnvironment (.asking "/src" false true)) {} {}).run noticesRequests
      run.ending = .ok 0 ∧ (s.step (exporting format)).2.response = ⟨200, .report format run.output⟩ := by
  have hline : 3 < 10 ^ digitLimit :=
    Nat.lt_of_lt_of_le (by decide : 3 < 10 ^ 1) (Nat.pow_le_pow_right (by decide) (by decide))
  have hwritable : ∀ n ∈ [styleNotice, errorNotice], n.Writable := by
    rw [List.forall_mem_cons, List.forall_mem_singleton]
    refine ⟨⟨by decide, by decide, by decide, by decide, ?_⟩,
      ⟨by decide, by decide, by decide, by decide, fun l hl => absurd hl List.not_mem_nil⟩⟩
    exact List.forall_mem_singleton.mpr ⟨by decide, hline⟩
  have hname : IsReportName "in.json" :=
    ⟨⟨rfl, by decide, by decide, by decide, by decide⟩, rfl⟩
  have htells : noticesFolder.Tells "in.json" [styleNotice, errorNotice] :=
    tells_put hwritable hname (by decide)
  have hscheduled : Scheduled [styleNotice, errorNotice] [.style] noticesRequests :=
    .post (posts_posting (hwritable _ (by simp)))
      (.hide (hides_concealing .style) (.post (posts_posting (hwritable _ (by simp))) .nil))
  refine ⟨htells, hscheduled, fun format => ?_⟩
  obtain ⟨-, hsuits, -, hexports, hagree⟩ :=
    hosts_agree [styleNotice, errorNotice] format "/src" false true [.style]
  exact hagree noticesFolder "in.json" htells _ hsuits {} {} (fun _ => rfl) [.style] noticesRequests
    (fun _ => Iff.rfl) hscheduled _ hexports

end Agreement

end Findings
