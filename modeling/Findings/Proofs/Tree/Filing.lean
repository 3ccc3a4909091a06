import Findings.Proofs.Store.Regrouping
import Findings.Proofs.Store.Traversal
import Findings.Proofs.Tree.Visibility
import Findings.Report.Entry

/-!
# What a report covers

Findings filed one after another, all of them shown when they come, are kept in the order of their groups,
with the flags of the mask (`files_foldl_file`). A report covers them in that order: all, or those of the
categories that the mask shows (`entries_foldl_file`).
-/

namespace Findings

theorem Finding.content_eq_self {f : Finding} (h : f.hidden = false) : f.content = f := by
  cases f
  simp_all [Finding.content]

namespace Store

theorem recomputeGroup_content (m : Mask) (g : FileGroup) :
    recomputeGroup m g.content = recomputeGroup m g := by
  simp [recomputeGroup, FileGroup.refresh, FileGroup.content, Finding.content, setHidden,
    Function.comp_def]

end Store

namespace Tree

theorem mask_foldl_file (v : Filtered) (fs : List Finding) : (fs.foldl file v).mask = v.mask := by
  induction fs generalizing v with
  | nil => rfl
  | cons f fs ih => exact ih _

theorem foldl_file_consistent {v : Filtered} (h : v.Consistent) (fs : List Finding) :
    (fs.foldl file v).Consistent := by
  induction fs generalizing v with
  | nil => exact h
  | cons f fs ih => exact ih (file_consistent h f)

theorem content_file_insert (v : Filtered) (f : Finding) :
    (file v f).store.content = v.store.content.insert f.content :=
  (Store.content_applyMask _ _ _).trans (Store.content_insert v.store f)

/-- Filing a finding places it in the groups, flags apart. -/
theorem content_file (v : Filtered) {f : Finding} (h : f.hidden = false) :
    (file v f).store.content.files = Store.place f v.store.content.files := by
  rw [content_file_insert, Finding.content_eq_self h]
  rfl

theorem content_foldl_file {v : Filtered} {before fs : List Finding}
    (hv : v.store.content.files = Store.groupsOf before) (hfs : ∀ f ∈ fs, f.hidden = false) :
    (fs.foldl file v).store.content.files = Store.groupsOf (before ++ fs) := by
  induction fs generalizing v before with
  | nil => simpa using hv
  | cons f fs ih =>
    rw [List.forall_mem_cons] at hfs
    have hfile : (file v f).store.content.files = Store.groupsOf (before ++ [f]) := by
      rw [content_file v hfs.1, hv, Store.place_groupsOf before hfs.1]
    rw [List.foldl_cons, ih hfile hfs.2, List.append_assoc]
    rfl

/-- Where the flags follow the mask, the files are those of the content with all flags computed from it. -/
theorem files_of_content {v : Filtered} (h : v.Consistent) {fs : List Finding}
    (hcontent : v.store.content.files = Store.groupsOf fs) :
    v.store.files = (Store.groupsOf fs).map (Store.recomputeGroup v.mask) := by
  rw [← hcontent, Store.content_files, List.map_map]
  conv_lhs => rw [← List.map_id v.store.files]
  refine List.map_congr_left fun g hg => ?_
  exact ((Store.recomputeGroup_content v.mask g).trans (h.follows g hg).recomputeGroup_eq).symm

/-- Findings filed in an empty store are grouped by file, with the flags of the mask. -/
theorem files_foldl_file (m : Mask) {fs : List Finding} (h : ∀ f ∈ fs, f.hidden = false) :
    (fs.foldl file { mask := m }).store.files =
      (Store.groupsOf fs).map (Store.recomputeGroup m) := by
  have hempty : ({ mask := m } : Filtered).store.content.files = Store.groupsOf [] := rfl
  have hcontent : (fs.foldl file { mask := m }).store.content.files = Store.groupsOf fs :=
    content_foldl_file hempty h
  have hfiles := files_of_content (foldl_file_consistent (Filtered.consistent_empty m) fs) hcontent
  rwa [mask_foldl_file] at hfiles

/-- The findings that a report covers: all, or those of the categories that are shown. -/
def covered (m : Mask) (all : Bool) (fs : List Finding) : List Finding :=
  (Store.grouped fs).filter fun f => all || m.shows f.category

/-- Filed findings are stored in the order of their groups, with the flags of the mask. -/
theorem findings_foldl_file (m : Mask) {fs : List Finding} (h : ∀ f ∈ fs, f.hidden = false) :
    (fs.foldl file { mask := m }).store.files.flatMap (·.findings) =
      (Store.grouped fs).map fun f => Store.setHidden (!m.shows f.category) f := by
  rw [files_foldl_file m h, Store.grouped, List.flatMap_map, List.map_flatMap]
  rfl

/-- A report on filed findings has their entries in the order of their groups. -/
theorem entries_foldl_file (m : Mask) (policy : PathPolicy) {fs : List Finding}
    (h : ∀ f ∈ fs, f.hidden = false) :
    (fs.foldl file { mask := m }).store.entries policy =
      (covered m policy.saveAllErrors fs).map (Report.Entry.ofFinding policy) := by
  have hfollows := (foldl_file_consistent (Filtered.consistent_empty m) fs).follows
  rw [Store.entries, Store.select, hfollows.flagsAgree.map_snd_traverse, findings_foldl_file m h,
    List.filter_map, List.map_map, covered]
  congr 2
  funext f
  simp [Store.setHidden]

/-- Covering what is covered leaves nothing out and changes no order. -/
theorem covered_covered (m : Mask) (all : Bool) (fs : List Finding) :
    covered m all (covered m all fs) = covered m all fs := by
  rw [covered, covered, Store.grouped_filter_grouped, List.filter_filter]
  simp

theorem covered_map {change : Finding → Finding} (hfile : ∀ f, (change f).file = f.file)
    (hcategory : ∀ f, (change f).category = f.category) (m : Mask) (all : Bool)
    (fs : List Finding) : covered m all (fs.map change) = (covered m all fs).map change := by
  rw [covered, covered, Store.grouped_map hfile, List.filter_map]
  congr 2
  funext f
  simp [hcategory]

theorem mem_of_mem_covered {m : Mask} {all : Bool} {fs : List Finding} {f : Finding}
    (h : f ∈ covered m all fs) : f ∈ fs :=
  Store.mem_grouped.mp (List.mem_filter.mp h).1

end Tree
end Findings
