import Findings.Proofs.Store.Traversal
import Findings.Proofs.Tree.Stored

/-!
# What is given out

The listing walks files and positions by itself, beside the traversal of the store. Both meet the same
findings (`fileRow_shown`): a row has the finding that its reference resolves to (`fileRow_resolved`), and
shows all of it, with its paths as the policy wants them (`Shows`). So all rows together show the traversal
(`rows_show`). A listed file has a row to show (`fileRow_findings_ne_nil`), and the full listing has one row
for each reference that resolves (`refs_rows`).
-/

namespace Findings

/-- The path is shown whole, or without the checked directory in front of it. -/
def PathPolicy.Shows (policy : PathPolicy) (path shown : Text) : Prop :=
  shown = if policy.showFullPath then path else Path.strip path policy.checkDirectory

namespace Tree

variable {t : Tree}

/-- What is shown of a finding, flag apart: all that is stored, with its paths as the policy wants them. -/
structure Shows (policy : PathPolicy) (f shown : Finding) : Prop where
  category : shown.category = f.category
  message : shown.message = f.message
  id : shown.id = f.id
  label : shown.label = f.label
  file : policy.Shows f.file shown.file
  backtrace : List.Forall₂ (fun l l' => policy.Shows l.file l'.file ∧ l'.line = l.line) f.backtrace
    shown.backtrace

theorem shows_displayed (policy : PathPolicy) (f : Finding) : Shows policy f (displayed policy f) where
  category := rfl
  message := rfl
  id := rfl
  label := rfl
  file := rfl
  backtrace := by
    rw [displayed, List.forall₂_map_right_iff, List.forall₂_same]
    exact fun l _ => ⟨rfl, rfl⟩

/-- The flag does not matter. -/
theorem Shows.of_content {policy : PathPolicy} {f shown : Finding} (h : Shows policy f shown.content) :
    Shows policy f shown :=
  ⟨h.category, h.message, h.id, h.label, h.file, h.backtrace⟩

/-! ## The rows of a file -/

/-- The rows of a file show its findings, with references to the file. -/
theorem fileRow_shown (g : FileGroup) (includeHidden : Bool) :
    (t.fileRow includeHidden g).findings.map (fun r => (r.finding, r.ref.path)) =
      (g.members includeHidden).map fun m => (displayed t.policy m.2, m.1.path) := by
  rw [fileRow, List.map_map, FileGroup.members, List.map_map]
  exact map_zipIdx_filter g.findings (fun f => includeHidden || !f.hidden) fun f =>
    (displayed t.policy f, g.path)

theorem fileRow_resolved (h : t.store.WellFormed) {g : FileGroup} (hg : g ∈ t.store.files)
    (includeHidden : Bool) :
    (t.fileRow includeHidden g).findings.map (fun r => (t.store.resolve r.ref, r.finding)) =
      (g.members includeHidden).map fun m => (some m.2, displayed t.policy m.2) := by
  -- Positions are counted before hidden findings are left out, so each is that of its finding.
  have hposition : ∀ p ∈ g.findings.zipIdx, t.store.resolve (t.store.refTo g p.2) = some p.1 := by
    intro p hp
    rw [h.resolve_refTo hg, List.mem_zipIdx_iff_getElem?.mp hp]
  calc (t.fileRow includeHidden g).findings.map (fun r => (t.store.resolve r.ref, r.finding))
      = (g.findings.zipIdx.filter fun p => includeHidden || !p.1.hidden).map fun p =>
          (t.store.resolve (t.store.refTo g p.2), displayed t.policy p.1) := List.map_map
    _ = (g.findings.zipIdx.filter fun p => includeHidden || !p.1.hidden).map fun p =>
          (some p.1, displayed t.policy p.1) :=
      List.map_congr_left fun p hp => by rw [hposition p (List.mem_filter.mp hp).1]
    _ = (g.findings.filter fun f => includeHidden || !f.hidden).map fun f =>
          (some f, displayed t.policy f) :=
      map_zipIdx_filter g.findings (fun f => includeHidden || !f.hidden) fun f =>
        (some f, displayed t.policy f)
    _ = (g.members includeHidden).map fun m => (some m.2, displayed t.policy m.2) := by
      rw [FileGroup.members, List.map_map]
      rfl

/-- A file that is listed without the hidden ones has a finding to show. -/
theorem fileRow_findings_ne_nil (h : t.store.FlagsAgree) {g : FileGroup} (hg : g ∈ t.store.groups false) :
    (t.fileRow false g).findings ≠ [] := by
  intro hnil
  have hshown := fileRow_shown (t := t) g false
  rw [hnil] at hshown
  exact h.members_ne_nil hg (List.map_eq_nil_iff.mp hshown.symm)

theorem refs_fileRow (g : FileGroup) :
    (t.fileRow true g).findings.map (·.ref) =
      (List.range g.findings.length).map (t.store.refTo g) := by
  have hpositions := List.zipIdx_map_snd 0 g.findings
  rw [← List.range_eq_range'] at hpositions
  rw [← hpositions]
  simp only [fileRow, Bool.true_or, List.filter_true, List.map_map]
  rfl

/-! ## All rows -/

/-- The rows of all files, one after another. -/
def findingRows (t : Tree) (includeHidden : Bool) : List FindingRow :=
  (t.rows includeHidden).flatMap (·.findings)

/-- The rows have the findings of the traversal, and their references resolve to them. -/
theorem rows_resolved (h : t.store.WellFormed) (includeHidden : Bool) :
    (t.findingRows includeHidden).map (fun r => (t.store.resolve r.ref, r.finding)) =
      (t.store.traverse includeHidden).map fun m => (some m.2, displayed t.policy m.2) := by
  rw [findingRows, rows, List.flatMap_map, List.map_flatMap, Store.traverse, List.map_flatMap]
  exact List.flatMap_congr fun g hg => fileRow_resolved h (List.mem_filter.mp hg).1 includeHidden

/-- The rows show the traversal. -/
theorem rows_show (h : t.store.WellFormed) (includeHidden : Bool) :
    List.Forall₂ (fun m r => t.store.resolve r.ref = some m.2 ∧ Shows t.policy m.2 r.finding ∧
      r.finding.hidden = m.2.hidden) (t.store.traverse includeHidden) (t.findingRows includeHidden) := by
  have hrows := rows_resolved h includeHidden
  rw [← List.forall₂_eq_eq_eq, List.forall₂_map_left_iff, List.forall₂_map_right_iff] at hrows
  refine hrows.flip.imp fun m r hrow => ?_
  obtain ⟨hresolve, hfinding⟩ := Prod.mk.inj hrow
  rw [hfinding]
  exact ⟨hresolve, shows_displayed t.policy m.2, rfl⟩

/-- The full listing has a row for each reference that resolves. -/
theorem refs_rows (t : Tree) : (t.findingRows true).map (·.ref) = t.store.refs := by
  rw [findingRows, rows, Store.groups_true, List.flatMap_map, List.map_flatMap, Store.refs]
  exact List.flatMap_congr fun g _ => refs_fileRow g

/-- After every run and under every policy, what is given out is the full traversal with the hidden findings
left out, in its order, unless they are asked for: the traversal, the findings of a report, and the rows of
the listing, each of which shows the finding that its reference resolves to, whether it is hidden, and its
paths as the policy wants them. No file is listed without findings, unless hidden ones are asked for, and the
full listing has each finding once. -/
theorem run_views (mask : Mask) (policy : PathPolicy) (applications : Registry) (ops : List Op)
    (policy' : PathPolicy) :
    let t : Tree := { (({ view := { mask }, policy, applications } : Tree).run ops) with policy := policy' }
    let given (includeHidden : Bool) : List (FileGroup × Finding) :=
      (t.store.traverse true).filter fun m => includeHidden || !m.2.hidden
    (∀ includeHidden, t.store.traverse includeHidden = given includeHidden) ∧
    (∀ saveAllErrors, t.store.select { policy' with saveAllErrors } =
      (given saveAllErrors).map (·.2)) ∧
    (∀ includeHidden, List.Forall₂ (fun m r => t.store.resolve r.ref = some m.2 ∧
        Shows policy' m.2 r.finding ∧ r.finding.hidden = m.2.hidden)
      (given includeHidden) (t.findingRows includeHidden)) ∧
    (∀ row ∈ t.rows false, row.findings ≠ []) ∧
    ((t.findingRows true).map (·.ref)).Nodup ∧
    ∀ r, r ∈ (t.findingRows true).map (·.ref) ↔ (t.store.resolve r).isSome := by
  intro t given
  have hsound : Filters.Sound t.store :=
    run_sound (t := { view := { mask }, policy, applications }) (Filters.sound_empty 0) ops
  have htraverse : ∀ includeHidden, t.store.traverse includeHidden = given includeHidden :=
    hsound.flags.traverse_eq_filter
  refine ⟨htraverse, fun saveAllErrors => ?_, fun includeHidden => ?_, fun row hrow => ?_, ?_, fun r => ?_⟩
  · rw [← htraverse]
    rfl
  · rw [← htraverse]
    exact rows_show hsound.wellFormed includeHidden
  · obtain ⟨g, hg, rfl⟩ := List.mem_map.mp hrow
    exact fileRow_findings_ne_nil hsound.flags hg
  · rw [refs_rows]
    exact hsound.wellFormed.nodup_refs
  · rw [refs_rows]
    exact hsound.wellFormed.mem_refs_iff r

end Tree
end Findings
