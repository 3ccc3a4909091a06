import Findings.Proofs.Store.Grouping

/-!
# Grouping what is grouped

Findings in the order of their groups (`grouped`) keep that order when they are grouped again, also if some
of them are left out before (`grouped_filter_grouped`): lists without a common file are grouped each for
itself (`grouped_append`), and the findings of one file stay as they are (`grouped_of_forall_eq`).
-/

namespace Findings.Store

/-- The findings of a list in the order of their groups. -/
def grouped (fs : List Finding) : List Finding := (groupsOf fs).flatMap (·.findings)

theorem grouped_eq (fs : List Finding) :
    grouped fs = (fs.map (·.file)).eraseDups.flatMap fun path => fs.filter fun f => f.file = path := by
  rw [grouped, groupsOf, List.flatMap_map]
  rfl

theorem mem_grouped {fs : List Finding} {f : Finding} : f ∈ grouped fs ↔ f ∈ fs := by
  rw [grouped_eq, List.mem_flatMap]
  constructor
  · rintro ⟨path, -, hf⟩
    exact (List.mem_filter.mp hf).1
  · intro hf
    exact ⟨f.file, List.mem_eraseDups.mpr (List.mem_map_of_mem hf), by simpa using hf⟩

/-- Grouping looks at nothing but the files. -/
theorem grouped_map {change : Finding → Finding} (h : ∀ f, (change f).file = f.file)
    (fs : List Finding) : grouped (fs.map change) = (grouped fs).map change := by
  have hfiles : (fs.map change).map (·.file) = fs.map (·.file) := by
    rw [List.map_map]
    exact List.map_congr_left fun f _ => h f
  rw [grouped_eq, grouped_eq, hfiles, List.map_flatMap]
  congr 1
  funext path
  rw [List.filter_map]
  congr 2
  funext f
  exact congrArg (fun file => decide (file = path)) (h f)

/-! ## Several files -/

section Append

variable {fs gs : List Finding} (h : ∀ f ∈ fs, ∀ g ∈ gs, f.file ≠ g.file)
include h

theorem filter_file_append_left {path : Text} (hpath : path ∈ fs.map (·.file)) :
    (fs ++ gs).filter (fun f => f.file = path) = fs.filter fun f => f.file = path := by
  obtain ⟨f, hf, rfl⟩ := List.mem_map.mp hpath
  have hnone : gs.filter (fun g => g.file = f.file) = [] := by
    rw [List.filter_eq_nil_iff]
    intro g hg he
    exact h f hf g hg (of_decide_eq_true he).symm
  rw [List.filter_append, hnone, List.append_nil]

theorem filter_file_append_right {path : Text} (hpath : path ∈ gs.map (·.file)) :
    (fs ++ gs).filter (fun f => f.file = path) = gs.filter fun f => f.file = path := by
  obtain ⟨g, hg, rfl⟩ := List.mem_map.mp hpath
  have hnone : fs.filter (fun f => f.file = g.file) = [] := by
    rw [List.filter_eq_nil_iff]
    intro f hf he
    exact h f hf g hg (of_decide_eq_true he)
  rw [List.filter_append, hnone, List.nil_append]

theorem eraseDups_files_append :
    ((fs ++ gs).map (·.file)).eraseDups =
      (fs.map (·.file)).eraseDups ++ (gs.map (·.file)).eraseDups := by
  rw [List.map_append]
  refine eraseDups_append_of_disjoint fun path hpath hpath' => ?_
  obtain ⟨f, hf, rfl⟩ := List.mem_map.mp hpath
  obtain ⟨g, hg, he⟩ := List.mem_map.mp hpath'
  exact h f hf g hg he.symm

/-- Lists without a common file are grouped each for itself. -/
theorem grouped_append : grouped (fs ++ gs) = grouped fs ++ grouped gs := by
  rw [grouped_eq, grouped_eq fs, grouped_eq gs, eraseDups_files_append h, List.flatMap_append]
  congr 1
  · exact List.flatMap_congr fun path hpath =>
      filter_file_append_left h (List.mem_eraseDups.mp hpath)
  · exact List.flatMap_congr fun path hpath =>
      filter_file_append_right h (List.mem_eraseDups.mp hpath)

end Append

/-- The findings of one file are in the order of their groups. -/
theorem grouped_of_forall_eq {fs : List Finding} {path : Text} (h : ∀ f ∈ fs, f.file = path) :
    grouped fs = fs := by
  by_cases hne : fs = []
  · rw [hne]
    rfl
  · have hpaths : (fs.map (·.file)).eraseDups = [path] :=
      eraseDups_of_forall_eq (by simpa using hne) (by simpa using h)
    rw [grouped_eq, hpaths, List.flatMap_singleton]
    exact List.filter_eq_self.mpr fun f hf => by simpa using h f hf

/-- Findings that stand together file by file are in the order of their groups. -/
theorem grouped_flatMap {paths : List Text} (hn : paths.Nodup) {part : Text → List Finding}
    (h : ∀ path, ∀ f ∈ part path, f.file = path) :
    grouped (paths.flatMap part) = paths.flatMap part := by
  induction paths with
  | nil => rfl
  | cons path paths ih =>
    rw [List.nodup_cons] at hn
    have hapart : ∀ f ∈ part path, ∀ g ∈ paths.flatMap part, f.file ≠ g.file := by
      intro f hf g hg he
      obtain ⟨path', hpath', hg⟩ := List.mem_flatMap.mp hg
      rw [h path f hf, h path' g hg] at he
      exact hn.1 (he ▸ hpath')
    rw [List.flatMap_cons, grouped_append hapart, grouped_of_forall_eq (h path), ih hn.2]

/-! ## Grouping again -/

/-- What is left of grouped findings is grouped. -/
theorem grouped_filter_grouped (keep : Finding → Bool) (fs : List Finding) :
    grouped ((grouped fs).filter keep) = (grouped fs).filter keep := by
  -- Leaving out first could change which file comes first, but here each file's findings stand together.
  have hparts : (grouped fs).filter keep = (fs.map (·.file)).eraseDups.flatMap fun path =>
      (fs.filter fun f => f.file = path).filter keep := by
    rw [grouped_eq, List.filter_flatMap]
  rw [hparts]
  refine grouped_flatMap (nodup_eraseDups _) fun path f hf => ?_
  exact of_decide_eq_true (List.mem_filter.mp (List.mem_filter.mp hf).1).2

end Findings.Store
