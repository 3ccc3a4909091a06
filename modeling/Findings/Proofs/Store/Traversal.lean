import Findings.Proofs.Store.References
import Findings.Proofs.Store.Representation

/-!
# What a traversal passes over

Hidden files are left out of a traversal before their findings are looked at. Where the flags of files agree
with those of their findings, no finding is lost by that: the traversal of what is shown is the full one
with the hidden findings left out (`FlagsAgree.traverse_eq_filter`). It meets only findings that are filed, so
what is true of those is true of what it meets (`Filed.of_mem_traverse`).

`refs` lists the references to the findings that the full traversal meets, in its order. They are those that
resolve (`WellFormed.mem_refs_iff`), each once (`WellFormed.nodup_refs`).
-/

namespace Findings

/-- A finding that is met is in its file, and what is true of all findings filed is true of it. -/
theorem FileGroup.Filed.of_mem_members {P : Finding → Prop} {g : FileGroup} (h : g.Filed P)
    {includeHidden : Bool} {m : FileGroup × Finding} (hm : m ∈ g.members includeHidden) :
    m.1 = g ∧ m.2.file = g.path ∧ P m.2.content := by
  obtain ⟨f, hf, rfl⟩ := List.mem_map.mp hm
  exact ⟨rfl, h.mem f (List.mem_filter.mp hf).1⟩

namespace Store

variable {s : Store}

/-! ## Hidden files -/

theorem members_eq_filter (g : FileGroup) (includeHidden : Bool) :
    g.members includeHidden = (g.members true).filter fun m => includeHidden || !m.2.hidden := by
  simp only [FileGroup.members, List.filter_map, Bool.true_or, List.filter_true]
  rfl

/-- No finding of a file that is passed over would be met. -/
theorem FlagsAgree.members_eq_nil (h : s.FlagsAgree) {includeHidden : Bool} {g : FileGroup}
    (hg : g ∈ s.files) (hpassed : ¬(includeHidden || !g.hidden) = true) :
    g.members includeHidden = [] := by
  obtain ⟨rfl, hhidden⟩ : includeHidden = false ∧ g.hidden = true := by simpa using hpassed
  rw [h g hg, List.all_eq_true] at hhidden
  have hnone : g.findings.filter (fun f => false || !f.hidden) = [] :=
    List.filter_eq_nil_iff.mpr fun f hf => by simp [hhidden f hf]
  rw [FileGroup.members, hnone, List.map_nil]

/-- A file that is met without the hidden ones has a finding that is met. -/
theorem FlagsAgree.members_ne_nil (h : s.FlagsAgree) {g : FileGroup} (hg : g ∈ s.groups false) :
    g.members false ≠ [] := by
  obtain ⟨hfile, hshown⟩ := List.mem_filter.mp hg
  obtain ⟨f, hf, hfshown⟩ : ∃ f ∈ g.findings, f.hidden = false := by
    have hflag := h g hfile
    simpa [show g.hidden = false by simpa using hshown] using hflag.symm
  have hmem : (g, f) ∈ g.members false :=
    List.mem_map_of_mem (List.mem_filter.mpr ⟨hf, by simp [hfshown]⟩)
  exact List.ne_nil_of_mem hmem

theorem FlagsAgree.traverse_eq_filter (h : s.FlagsAgree) (includeHidden : Bool) :
    s.traverse includeHidden = (s.traverse true).filter fun m => includeHidden || !m.2.hidden := by
  calc s.traverse includeHidden = s.files.flatMap (·.members includeHidden) :=
        flatMap_filter_of_eq_nil fun _ hg hpassed => h.members_eq_nil hg hpassed
    _ = s.files.flatMap fun g => (g.members true).filter fun m => includeHidden || !m.2.hidden :=
        List.flatMap_congr fun g _ => members_eq_filter g includeHidden
    _ = (s.traverse true).filter fun m => includeHidden || !m.2.hidden := by
      rw [traverse, groups_true, List.filter_flatMap]

theorem Filed.of_mem_traverse {P : Finding → Prop} (h : s.Filed P) {includeHidden : Bool}
    {m : FileGroup × Finding} (hm : m ∈ s.traverse includeHidden) : P m.2.content := by
  obtain ⟨g, hg, hmember⟩ := List.mem_flatMap.mp hm
  exact ((h g (List.mem_filter.mp hg).1).of_mem_members hmember).2.2

theorem Follows.flagsAgree {m : Mask} (h : s.Follows m) : s.FlagsAgree := fun g hg => (h g hg).2

/-- The findings of a traversal, without their files. -/
theorem FlagsAgree.map_snd_traverse (h : s.FlagsAgree) (includeHidden : Bool) :
    (s.traverse includeHidden).map (·.2) =
      (s.files.flatMap (·.findings)).filter fun f => includeHidden || !f.hidden := by
  have hall : (s.traverse true).map (·.2) = s.files.flatMap (·.findings) := by
    simp [traverse_true, List.map_flatMap, Function.comp_def]
  rw [h.traverse_eq_filter, ← hall, List.filter_map]
  rfl

/-! ## References to all findings -/

/-- The reference to a position of a file. -/
def refTo (s : Store) (g : FileGroup) (position : Nat) : Ref := ⟨g.path, position, s.generation⟩

/-- The references to all findings, in the order of the full traversal. -/
def refs (s : Store) : List Ref :=
  s.files.flatMap fun g => (List.range g.findings.length).map (s.refTo g)

theorem refTo_inj {g g' : FileGroup} {i j : Nat} (h : s.refTo g i = s.refTo g' j) :
    g.path = g'.path ∧ i = j :=
  ⟨congrArg Ref.path h, Int.ofNat_inj.mp (congrArg Ref.index h)⟩

section WellFormed

variable (h : s.WellFormed)
include h

theorem WellFormed.resolve_refTo {g : FileGroup} (hg : g ∈ s.files) (i : Nat) :
    s.resolve (s.refTo g i) = g.findings[i]? := by
  have hgroup := (h.group?_eq_some_iff g.path g).mpr ⟨hg, rfl⟩
  have hfile : s.fileOf (s.refTo g i) = some g := (fileOf_eq_some_iff s _ g).mpr ⟨rfl, hgroup⟩
  rw [resolve, hfile]
  exact if_pos (Int.natCast_nonneg i)

theorem WellFormed.nodup_refs : s.refs.Nodup := by
  have hpaths : s.files.Pairwise fun g g' => g.path ≠ g'.path := List.pairwise_map.mp h.paths_nodup
  refine List.nodup_flatMap.mpr ⟨fun g _ => ?_, hpaths.imp fun hne r hr hr' => ?_⟩
  · exact List.nodup_range.map fun i j hij => (refTo_inj hij).2
  · obtain ⟨i, -, rfl⟩ := List.mem_map.mp hr
    obtain ⟨j, -, hj⟩ := List.mem_map.mp hr'
    exact hne (refTo_inj hj).1.symm

/-- The references to all findings are those that resolve. -/
theorem WellFormed.mem_refs_iff (r : Ref) : r ∈ s.refs ↔ (s.resolve r).isSome := by
  rw [refs, List.mem_flatMap]
  constructor
  · rintro ⟨g, hg, hr⟩
    obtain ⟨i, hi, rfl⟩ := List.mem_map.mp hr
    rw [h.resolve_refTo hg, List.getElem?_eq_getElem (List.mem_range.mp hi)]
    rfl
  · intro hr
    obtain ⟨f, hf⟩ := Option.isSome_iff_exists.mp hr
    obtain ⟨g, hfile, hindex, hfinding⟩ := (resolve_eq_some_iff s r f).mp hf
    obtain ⟨hgeneration, hgroup⟩ := (fileOf_eq_some_iff s r g).mp hfile
    obtain ⟨hg, hpath⟩ := (h.group?_eq_some_iff r.path g).mp hgroup
    obtain ⟨hlt, -⟩ := List.getElem?_eq_some_iff.mp hfinding
    refine ⟨g, hg, List.mem_map.mpr ⟨r.index.toNat, List.mem_range.mpr hlt, ?_⟩⟩
    rw [refTo, hpath, Int.toNat_of_nonneg hindex, ← hgeneration]

end WellFormed

end Store
end Findings
