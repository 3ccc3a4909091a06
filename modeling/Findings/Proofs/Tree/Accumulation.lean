import Findings.Proofs.Tree.Filing
import Findings.Proofs.Tree.References
import Findings.Proofs.Tree.Stored
import Findings.Proofs.Tree.Views

/-!
# What comes together without clearing

What an operation adds can be told from the operation alone: a report is filed as one finding, or refused,
whatever is in the tree (`add_eq`). So as long as nothing is cleared, a tree holds the findings of all reports
so far, grouped by file (`run_content`), and the position that the next finding of a file gets is the number of
its findings so far (`nextRef_of_content`). The groups of some of the files are the groups of their findings
(`filter_groupsOf`).
-/

namespace Findings

namespace Store

/-! ## Groups -/

/-- The groups of some of the files are those of the findings in them. -/
theorem filter_groupsOf (keep : Text → Bool) (fs : List Finding) :
    (groupsOf fs).filter (fun g => keep g.path) = groupsOf (fs.filter fun f => keep f.file) := by
  have hpaths : ((fs.filter fun f => keep f.file).map (·.file)).eraseDups =
      (fs.map (·.file)).eraseDups.filter keep := by
    rw [← eraseDups_filter, List.filter_map]
    rfl
  rw [groupsOf, groupsOf, hpaths, List.filter_map]
  refine List.map_congr_left fun path hpath => ?_
  have hkeep : keep path := (List.mem_filter.mp hpath).2
  have hfindings : (fs.filter fun f => keep f.file).filter (fun f => f.file = path) =
      fs.filter fun f => f.file = path := by
    rw [List.filter_filter]
    refine List.filter_congr fun f _ => ?_
    by_cases hf : f.file = path <;> simp [hf, hkeep]
  rw [groupOf, groupOf, hfindings]

theorem place_perm (f : Finding) (gs : List FileGroup) :
    ((place f gs).flatMap (·.findings)).Perm (gs.flatMap (·.findings) ++ [f]) := by
  induction gs with
  | nil => exact List.Perm.refl _
  | cons g gs ih =>
    by_cases hg : g.path = f.file
    · rw [place_cons_of_eq hg, List.flatMap_cons, List.flatMap_cons, FileGroup.append, List.append_assoc,
        List.append_assoc]
      exact List.perm_append_comm.append_left g.findings
    · rw [place_cons_of_ne hg, List.flatMap_cons, List.flatMap_cons, List.append_assoc]
      exact ih.append_left g.findings

/-- Grouping loses and doubles nothing. -/
theorem grouped_perm {fs : List Finding} (h : ∀ f ∈ fs, f.hidden = false) : (grouped fs).Perm fs := by
  induction fs using List.reverseRecOn with
  | nil => exact List.Perm.refl _
  | append_singleton fs f ih =>
    rw [List.forall_mem_append, List.forall_mem_singleton] at h
    rw [grouped, ← place_groupsOf fs h.2]
    exact (place_perm f _).trans ((ih h.1).append_right [f])

theorem mem_groupsOf {fs : List Finding} {g : FileGroup} :
    g ∈ groupsOf fs ↔ ∃ f ∈ fs, g = groupOf fs f.file := by
  simp only [groupsOf, List.mem_map, List.mem_eraseDups]
  constructor
  · rintro ⟨path, ⟨f, hf, rfl⟩, rfl⟩
    exact ⟨f, hf, rfl⟩
  · rintro ⟨f, hf, rfl⟩
    exact ⟨f.file, ⟨f, hf, rfl⟩, rfl⟩

/-- The group found for a file has the findings in it. -/
theorem findings_of_find?_groupsOf (fs : List Finding) (path : Text) :
    (((groupsOf fs).find? fun g => g.path = path).getD { path }).findings =
      fs.filter fun f => f.file = path := by
  cases hfound : (groupsOf fs).find? fun g => g.path = path with
  | some g =>
    obtain ⟨f, -, rfl⟩ := mem_groupsOf.mp (List.mem_of_find?_eq_some hfound)
    have hpath := List.find?_some hfound
    obtain rfl : f.file = path := of_decide_eq_true hpath
    rfl
  | none =>
    refine (List.filter_eq_nil_iff.mpr fun f hf hpath => ?_).symm
    exact List.find?_eq_none.mp hfound (groupOf fs f.file) (mem_groupsOf.mpr ⟨f, hf, rfl⟩) hpath

/-- The position that the next finding of a file gets is the number of its findings so far. -/
theorem nextRef_of_content {s : Store} {fs : List Finding} (h : s.content.files = groupsOf fs)
    (path : Text) :
    s.nextRef path = ⟨path, (fs.filter fun f => f.file = path).length, s.generation⟩ := by
  have hfor : s.content.groupFor path =
      ((groupsOf fs).find? fun g => g.path = path).getD { path } := by
    rw [groupFor, group?, h]
  rw [← nextRef_content, nextRef, nextSlot, hfor, findings_of_find?_groupsOf, content_generation]

end Store

namespace Tree

/-! ## Operations -/

/-- The finding as which a report is filed, or why it is refused. -/
def Report.filed (r : Report) : Except Error Finding :=
  match classify r.severity with
  | .error e => .error e
  | .ok (c, _) => (submission r c).bind fun n => n.backtrace.map (n.finding c)

/-- What is logged about a report. -/
def Report.events (r : Report) : List Log.Event :=
  match classify r.severity with
  | .ok (c, false) => [.unknownSeverity r.severity r.file c]
  | _ => []

theorem Report.yields_of_filed {r : Report} {f : Finding} (h : r.filed = .ok f) : r.Yields f := by
  unfold filed at h
  cases hc : classify r.severity with
  | error e => simp [hc] at h
  | ok known =>
    cases hn : submission r known.1 with
    | error e => simp [hc, hn, Except.bind] at h
    | ok n =>
      obtain ⟨-, backtrace, hbacktrace, hy⟩ := submission_yields hc hn
      obtain rfl : n.finding known.1 backtrace = f := by
        simpa [hc, hn, hbacktrace, Except.bind, Except.map] using h
      exact hy

/-- Whether a report is filed, as what, and what is logged does not depend on the tree. -/
theorem add_eq (t : Tree) (r : Report) :
    t.add r = match r.filed with
      | .ok f => .ok { t with view := file t.view f } (t.store.nextRef f.file) r.events
      | .error e => .error t e r.events := by
  unfold add Report.filed Report.events
  cases hc : classify r.severity with
  | error e => rfl
  | ok p =>
    obtain ⟨c, known⟩ := p
    cases hn : submission r c with
    | error e => cases known <;> simp [hn, Except.bind]
    | ok n =>
      obtain ⟨hreal, backtrace, hbacktrace, -⟩ := submission_yields hc hn
      simp only [hn, hbacktrace, Except.bind, Except.map, Filtered.add, Store.add_eq_insert _ hreal hbacktrace]
      cases known <;> rfl

/-- A report with texts is always filed. -/
theorem Report.filed_ofTexts {r : Report} (h : r.OfTexts) : ∃ f, r.filed = .ok f := by
  obtain ⟨f, log, -, hadd⟩ := add_ofTexts {} h
  rw [add_eq] at hadd
  cases hfiled : r.filed with
  | error e => simp [hfiled, Outcome.error, Outcome.ok] at hadd
  | ok f => exact ⟨f, rfl⟩

/-- The finding that an operation adds, if it adds one. -/
def Op.finding? : Op → Option Finding
  | .add r => r.filed.toOption
  | _ => none

theorem Op.finding?_add {r : Report} {f : Finding} (h : r.filed = .ok f) :
    (Op.add r).finding? = some f := by
  rw [finding?, h]
  rfl

theorem Op.yields_of_finding? {op : Op} {f : Finding} (h : op.finding? = some f) :
    ∃ r, op = .add r ∧ r.Yields f := by
  cases op with
  | add r =>
    cases hfiled : r.filed with
    | error e => simp [finding?, hfiled, Except.toOption] at h
    | ok f' =>
      obtain rfl := Option.some.inj ((finding?_add hfiled).symm.trans h)
      exact ⟨r, rfl, Report.yields_of_filed hfiled⟩
  | _ => simp [finding?] at h

/-- The findings that operations add. -/
def added (ops : List Op) : List Finding := ops.filterMap Op.finding?

theorem hidden_of_mem_added {ops : List Op} {f : Finding} (h : f ∈ added ops) : f.hidden = false := by
  obtain ⟨op, -, hop⟩ := List.mem_filterMap.mp h
  obtain ⟨r, -, hy⟩ := Op.yields_of_finding? hop
  exact hy.shown

theorem added_cons (op : Op) (ops : List Op) : added (op :: ops) = op.finding?.toList ++ added ops := by
  cases hop : op.finding? <;> simp [added, hop]

/-! ## Runs without clearing -/

variable {t : Tree}

theorem step_content {op : Op} (hclear : op ≠ .clear) {before : List Finding}
    (h : t.store.content.files = Store.groupsOf before) :
    (t.step op).1.store.content.files = Store.groupsOf (before ++ op.finding?.toList) := by
  have hkept : ∀ {op : Op}, op.finding? = none → (t.step op).1.store.content = t.store.content →
      (t.step op).1.store.content.files = Store.groupsOf (before ++ op.finding?.toList) := by
    intro op hnone hcontent
    rw [hcontent, h, hnone, Option.toList_none, List.append_nil]
  cases op with
  | add r =>
    cases hfiled : r.filed with
    | error e =>
      refine hkept (by rw [Op.finding?, hfiled]; rfl) ?_
      simp only [step, add_eq, hfiled]
      rfl
    | ok f =>
      have hshown : f.hidden = false := (Report.yields_of_filed hfiled).shown
      simp only [step, add_eq, hfiled, Op.finding?_add hfiled]
      calc (file t.view f).store.content.files = Store.place f t.store.content.files :=
            content_file t.view hshown
        _ = Store.groupsOf (before ++ [f]) := by rw [h, Store.place_groupsOf before hshown]
  | clear => exact absurd rfl hclear
  | showCategory code shown => exact hkept rfl (t.view.content_setMask code shown)
  | showCategories entries => exact hkept rfl (t.view.content_setMasks entries)
  | _ => exact hkept rfl rfl

/-- As long as nothing is cleared, the store holds what has been added, grouped by file. -/
theorem run_content {ops : List Op} (hclear : .clear ∉ ops) {before : List Finding}
    (h : t.store.content.files = Store.groupsOf before) :
    (t.run ops).store.content.files = Store.groupsOf (before ++ added ops) := by
  induction ops generalizing t before with
  | nil => simpa [added, run] using h
  | cons op ops ih =>
    rw [List.mem_cons, not_or] at hclear
    rw [run, ih hclear.2 (step_content (Ne.symm hclear.1) h), List.append_assoc, ← added_cons]

theorem run_generation {ops : List Op} (hclear : .clear ∉ ops) :
    (t.run ops).store.generation = t.store.generation := by
  cases run_later t ops with
  | kept _ hgeneration _ => exact hgeneration
  | cleared hcleared _ => exact absurd hcleared hclear

/-! ## Rows -/

theorem findings_fileRow (t : Tree) (g : FileGroup) :
    (t.fileRow true g).findings.map (·.finding) = g.findings.map (displayed t.policy) := by
  have hshown := map_zipIdx_filter g.findings (fun f => true || !f.hidden) (displayed t.policy)
  simp only [Bool.true_or, List.filter_true] at hshown
  simp only [fileRow, List.map_map, Bool.true_or, List.filter_true]
  exact hshown

/-- In the full listing the flags are what the mask says. -/
theorem flags_of_rows (h : t.view.Consistent) {row : FileRow} (hrow : row ∈ t.rows true) :
    (∀ f ∈ row.findings, f.finding.hidden = !t.mask.shows f.finding.category) ∧
      row.hidden = row.findings.all (·.finding.hidden) := by
  obtain ⟨g, hg, rfl⟩ := List.mem_map.mp hrow
  obtain ⟨hflags, hhidden⟩ := h.follows g (List.mem_filter.mp hg).1
  have hfindings : (t.fileRow true g).findings.map (·.finding) = g.findings.map (displayed t.policy) :=
    findings_fileRow t g
  constructor
  · intro f hf
    have hmem : f.finding ∈ (t.fileRow true g).findings.map (·.finding) := List.mem_map_of_mem hf
    rw [hfindings] at hmem
    obtain ⟨f', hf', heq⟩ := List.mem_map.mp hmem
    rw [← heq]
    exact hflags f' hf'
  · have hall : (t.fileRow true g).findings.all (·.finding.hidden) =
        ((t.fileRow true g).findings.map (·.finding)).all (·.hidden) := by
      rw [List.all_map]
      rfl
    rw [hall, hfindings, List.all_map]
    exact hhidden

def FindingRow.unflagged (r : FindingRow) : FindingRow := { r with finding := r.finding.content }

/-- The row with all that it says but what is hidden. -/
def FileRow.unflagged (r : FileRow) : FileRow :=
  { r with hidden := false, findings := r.findings.map FindingRow.unflagged }

theorem unflagged_fileRow (t : Tree) (g : FileGroup) :
    (t.fileRow true g).unflagged = t.fileRow true g.content := by
  simp [fileRow, FileRow.unflagged, FileGroup.content, List.zipIdx_map, FindingRow.unflagged, displayed,
    Finding.content, Function.comp_def]

theorem unflagged_rows (t : Tree) :
    (t.rows true).map FileRow.unflagged = t.store.content.files.map (t.fileRow true) := by
  rw [rows, Store.groups_true, List.map_map, Store.content_files, List.map_map]
  exact List.map_congr_left fun g _ => unflagged_fileRow t g

theorem fileRow_congr {t t' : Tree} (hpolicy : t.policy = t'.policy)
    (hgeneration : t.store.generation = t'.store.generation) : t.fileRow true = t'.fileRow true := by
  funext g
  simp only [fileRow, hpolicy, hgeneration]

/-- The full listing shows what has been added, in an order of its own, each finding once. -/
theorem findingRows_show {fs : List Finding} (hfs : ∀ f ∈ fs, f.hidden = false)
    (h : t.store.content.files = Store.groupsOf fs) :
    ∃ fs', fs'.Perm fs ∧ List.Forall₂ (fun f r => Shows t.policy f r.finding) fs' (t.findingRows true) := by
  have hrows : (t.findingRows true).map (·.finding.content) =
      ((t.rows true).map FileRow.unflagged).flatMap fun row => row.findings.map (·.finding) := by
    simp only [findingRows, List.map_flatMap, List.flatMap_map, FileRow.unflagged, List.map_map]
    rfl
  have hgrouped : (t.findingRows true).map (·.finding.content) =
      (Store.grouped fs).map (displayed t.policy) := by
    rw [hrows, unflagged_rows, h, List.flatMap_map, Store.grouped, List.map_flatMap]
    exact List.flatMap_congr fun g _ => findings_fileRow t g
  rw [← List.forall₂_eq_eq_eq, List.forall₂_map_left_iff, List.forall₂_map_right_iff] at hgrouped
  refine ⟨Store.grouped fs, Store.grouped_perm hfs, hgrouped.flip.imp fun f r hrow => ?_⟩
  exact Shows.of_content (hrow ▸ shows_displayed t.policy f)

end Tree
end Findings
