import Findings.Proofs.Server.Bodies
import Findings.Proofs.Server.Operations
import Findings.Proofs.Tree.Accumulation

/-!
# What requests report

Every report that passes validation is filed, as a finding that can be told from the request alone
(`Request.filed_of_add`). So as long as no request clears, the tree holds the findings of the requests so far
(`content_run`, `files_run`), and the answer to a report is its file with the number of findings that were
reported in it before (`add_reply`).
-/

namespace Findings.Server

/-! ## What requests report -/

namespace Request

/-- The report that a request asks to be added. -/
def report? (r : Request) : Option Tree.Report :=
  match r.operation? with
  | some (.add report) => some report
  | _ => none

/-- The canonical path of the file that a request reports about. -/
def path? (r : Request) : Option Text := r.report?.bind fun report => report.file.toCanonicalPath.toOption

/-- The finding that a request adds. -/
def finding? (r : Request) : Option Finding := r.operation?.bind Tree.Op.finding?

variable {r : Request}

theorem report?_eq_some {report : Tree.Report} :
    r.report? = some report ↔ r.operation? = some (.add report) := by
  unfold report?
  split <;> simp_all

theorem ofTexts_of_add {report : Tree.Report} (h : r.operation? = some (.add report)) :
    report.OfTexts := by
  obtain ⟨-, -, hread⟩ := operation?_eq_add.mp h
  obtain ⟨v, -, hreport⟩ := read?_eq_some.mp hread
  exact readReport_ofTexts hreport

/-- The lines of what is reported can be written out again. -/
theorem legibleLines_of_add {report : Tree.Report} (h : r.operation? = some (.add report)) :
    report.LegibleLines := by
  obtain ⟨-, -, hread⟩ := operation?_eq_add.mp h
  obtain ⟨v, hv, hreport⟩ := read?_eq_some.mp hread
  exact readReport_legible (readBody_bounded hv) hreport

/-- What is reported is always filed. -/
theorem filed_of_add {report : Tree.Report} (h : r.operation? = some (.add report)) :
    ∃ f, report.filed = .ok f ∧ r.finding? = some f := by
  obtain ⟨f, hfiled⟩ := Tree.Report.filed_ofTexts (ofTexts_of_add h)
  exact ⟨f, hfiled, by rw [finding?, h, Option.bind_some, Tree.Op.finding?_add hfiled]⟩

theorem report_of_finding? {f : Finding} (h : r.finding? = some f) :
    ∃ report, r.operation? = some (.add report) ∧ report.Yields f := by
  obtain ⟨op, hop, hfinding⟩ := Option.bind_eq_some_iff.mp h
  obtain ⟨report, rfl, hy⟩ := Tree.Op.yields_of_finding? hfinding
  exact ⟨report, hop, hy⟩

theorem path?_of_add {report : Tree.Report} (h : r.operation? = some (.add report)) :
    r.path? = report.file.toCanonicalPath.toOption := by
  rw [path?, report?_eq_some.mpr h, Option.bind_some]

theorem path?_of_finding? {f : Finding} (h : r.finding? = some f) : r.path? = some f.file := by
  obtain ⟨report, hop, hy⟩ := report_of_finding? h
  rw [path?_of_add hop, hy.file]
  rfl

theorem finding?_of_path? {path : Text} (h : r.path? = some path) :
    ∃ f, r.finding? = some f ∧ f.file = path := by
  obtain ⟨report, hreport, -⟩ := Option.bind_eq_some_iff.mp h
  obtain ⟨f, -, hf⟩ := filed_of_add (report?_eq_some.mp hreport)
  exact ⟨f, hf, Option.some.inj ((path?_of_finding? hf).symm.trans h)⟩

end Request

/-- The findings that requests add. -/
def reported (rs : List Request) : List Finding := rs.filterMap Request.finding?

theorem added_operations (rs : List Request) :
    Tree.added (rs.filterMap Request.operation?) = reported rs := by
  rw [Tree.added, List.filterMap_filterMap]
  rfl

theorem hidden_of_mem_reported {rs : List Request} {f : Finding} (h : f ∈ reported rs) :
    f.hidden = false :=
  Tree.hidden_of_mem_added ((added_operations rs).symm ▸ h)

/-- The findings are those that the reports describe, one for each. -/
theorem yields_reported (rs : List Request) :
    List.Forall₂ Tree.Report.Yields (rs.filterMap Request.report?) (reported rs) := by
  induction rs with
  | nil => exact .nil
  | cons r rs ih =>
    cases hreport : r.report? with
    | none =>
      have hfinding : r.finding? = none := by
        rw [Option.eq_none_iff_forall_ne_some]
        intro f hf
        obtain ⟨report, hop, -⟩ := Request.report_of_finding? hf
        rw [Request.report?_eq_some.mpr hop] at hreport
        cases hreport
      rw [reported, List.filterMap_cons_none hreport, List.filterMap_cons_none hfinding]
      exact ih
    | some report =>
      obtain ⟨f, hfiled, hfinding⟩ := Request.filed_of_add (Request.report?_eq_some.mp hreport)
      rw [reported, List.filterMap_cons_some hreport, List.filterMap_cons_some hfinding]
      exact .cons (Tree.Report.yields_of_filed hfiled) ih

/-! ## Runs without clearing -/

section Runs

variable {s : Server} {rs : List Request} (hclear : ∀ r ∈ rs, r.operation? ≠ some .clear)
include hclear

theorem clear_not_mem : .clear ∉ rs.filterMap Request.operation? := by
  intro hmem
  obtain ⟨r, hr, hop⟩ := List.mem_filterMap.mp hmem
  exact hclear r hr hop

/-- As long as no request clears, the store holds what has been reported, grouped by file. -/
theorem content_run (hempty : s.tree.store.files = []) :
    (s.run rs).tree.store.content.files = Store.groupsOf (reported rs) := by
  have hstart : s.tree.store.content.files = Store.groupsOf [] := by
    rw [Store.content_files, hempty]
    rfl
  rw [run_operations, ← added_operations]
  exact Tree.run_content (clear_not_mem hclear) hstart

theorem generation_run : (s.run rs).tree.store.generation = s.tree.store.generation := by
  rw [run_operations]
  exact Tree.run_generation (clear_not_mem hclear)

omit hclear in
theorem consistent_run (h : s.tree.view.Consistent) (rs : List Request) :
    (s.run rs).tree.view.Consistent := by
  rw [run_operations]
  refine Tree.run_consistent h fun op hop => ?_
  obtain ⟨r, -, hr⟩ := List.mem_filterMap.mp hop
  exact Request.regular_of_operation? hr

omit hclear in
theorem filed_of_empty {P : Finding → Prop} (hempty : s.tree.store.files = []) :
    s.tree.store.Filed P := fun g hg => by simp [hempty] at hg

omit hclear in
/-- All that is stored has texts. -/
theorem hasTexts_run (hempty : s.tree.store.files = []) (rs : List Request) :
    (s.run rs).tree.store.Filed Finding.HasTexts := by
  rw [run_operations]
  refine Tree.run_hasTexts (filed_of_empty hempty) fun report hadd => ?_
  obtain ⟨r, -, hop⟩ := List.mem_filterMap.mp hadd
  exact Request.ofTexts_of_add hop

omit hclear in
/-- All lines that are stored can be written out. -/
theorem legibleLines_run (hempty : s.tree.store.files = []) (rs : List Request) :
    (s.run rs).tree.store.Filed Finding.LegibleLines := by
  rw [run_operations]
  refine Tree.run_legibleLines (filed_of_empty hempty) fun report hadd => ?_
  obtain ⟨r, -, hop⟩ := List.mem_filterMap.mp hadd
  exact ⟨Request.ofTexts_of_add hop, Request.legibleLines_of_add hop⟩

omit hclear in
/-- No surrogate is stored if no report has any. -/
theorem encodable_run (hempty : s.tree.store.files = [])
    (hreports : ∀ r ∈ rs, ∀ report, r.operation? = some (.add report) → report.Encodable) :
    (s.run rs).tree.store.Filed Finding.Encodable := by
  rw [run_operations]
  refine Tree.run_encodable (filed_of_empty hempty) fun report hadd => ?_
  obtain ⟨r, hr, hop⟩ := List.mem_filterMap.mp hadd
  exact hreports r hr report hop

/-- The files, with the flags of the mask. -/
theorem files_run (h : s.tree.view.Consistent) (hempty : s.tree.store.files = []) :
    (s.run rs).tree.store.files =
      (Store.groupsOf (reported rs)).map (Store.recomputeGroup (s.run rs).tree.mask) :=
  Tree.files_of_content (consistent_run h rs) (content_run hclear hempty)

end Runs

/-! ## Answers to reports -/

variable {s : Server} {r : Request}

theorem add_reply {report : Tree.Report} (hop : r.operation? = some (.add report)) {f : Finding}
    (hfiled : report.filed = .ok f) :
    (s.step r).2 =
      { response := (Response.ok (.object (s.tree.store.nextRef f.file).fields)).sent
        log := report.events } := by
  rw [step_operation hop]
  simp only [responseTo, Tree.step, Tree.add_eq, hfiled]
  rfl

/-- A body that cannot be read is answered alike in every state. -/
theorem withBody_snd_of_unread {α : Type} {read : Value → Validation.Checked α} (h : r.read? read = none)
    (s s' : Server) (act act' : α → Server × Reply) :
    (s.withBody r.body read act).2 = (s'.withBody r.body read act').2 := by
  unfold Request.read? at h
  unfold withBody
  cases hbody : readBody r.body with
  | error fault => cases fault <;> rfl
  | ok v =>
    cases hv : read v with
    | error is => simp only [hv]; rfl
    | ok a => simp [hbody, hv, Except.toOption] at h

/-- What is posted to the results is a report, or answered alike in every state. -/
theorem post_cases (hroute : r.route? = some .results) (hmethod : r.method = .post) :
    (∃ report, r.operation? = some (.add report)) ∨ ∀ s s' : Server, (s.step r).2 = (s'.step r).2 := by
  cases hread : r.read? readReport with
  | some report => exact .inl ⟨report, Request.operation?_eq_add.mpr ⟨hroute, hmethod, hread⟩⟩
  | none =>
    refine .inr fun s s' => ?_
    have hsame : (s.atRoute r .results).2 = (s'.atRoute r .results).2 := by
      simp only [atRoute, hmethod]
      exact withBody_snd_of_unread hread s s' _ _
    rw [step_reply hroute, step_reply hroute, hsame]

end Findings.Server
