import Findings.Proofs.Store.Index
import Findings.Proofs.Store.Masks

/-!
# Flags follow the mask

Flags are written in three ways: through the index when a category is shown or hidden, for one reference
after an addition, and over all groups. Proved here, for a well-formed store:

* `WellFormed.showCategory_eq`: the first way changes exactly the findings of the category and refreshes
  exactly the files that hold one;
* `Follows.showCategory_eq_recompute`, `Follows.applyMask_insert`: from flags that follow a mask, the
  first and the second way lead to what computing all flags anew would give;
* `follows_recompute`: the third way makes the flags follow any mask.
-/

namespace Findings.Store

theorem setHidden_self {hidden : Bool} {f : Finding} (h : f.hidden = hidden) :
    setHidden hidden f = f := by
  subst h
  rfl

/-! ## All flags at once -/

/-- The flags of a file are what the mask says. -/
def GroupFollows (m : Mask) (g : FileGroup) : Prop :=
  (∀ f ∈ g.findings, f.hidden = !m.shows f.category) ∧ g.hidden = g.findings.all (·.hidden)

/-- The flags of all files are what the mask says. -/
def Follows (s : Store) (m : Mask) : Prop := ∀ g ∈ s.files, GroupFollows m g

instance (m : Mask) (g : FileGroup) : Decidable (GroupFollows m g) :=
  inferInstanceAs (Decidable (_ ∧ _))

instance (s : Store) (m : Mask) : Decidable (s.Follows m) :=
  inferInstanceAs (Decidable (∀ g ∈ s.files, GroupFollows m g))

theorem groupFollows_recomputeGroup (m : Mask) (g : FileGroup) :
    GroupFollows m (recomputeGroup m g) := by
  refine ⟨fun f hf => ?_, rfl⟩
  obtain ⟨f', _, rfl⟩ := List.mem_map.mp hf
  rfl

theorem GroupFollows.map_setHidden {m : Mask} {g : FileGroup} (h : GroupFollows m g) :
    g.findings.map (fun f => setHidden (!m.shows f.category) f) = g.findings := by
  conv_rhs => rw [← List.map_id g.findings]
  exact List.map_congr_left fun f hf => setHidden_self (h.1 f hf)

theorem GroupFollows.recomputeGroup_eq {m : Mask} {g : FileGroup} (h : GroupFollows m g) :
    recomputeGroup m g = g := by
  rw [recomputeGroup, h.map_setHidden, FileGroup.refresh, ← h.2]

theorem follows_recompute (s : Store) (m : Mask) : (s.recompute m).Follows m := by
  intro g hg
  obtain ⟨g', _, rfl⟩ := List.mem_map.mp hg
  exact groupFollows_recomputeGroup m g'

theorem follows_empty (generation : Nat) (m : Mask) : ({ generation } : Store).Follows m :=
  fun _ hg => absurd hg List.not_mem_nil

/-! ## One category, through the index -/

/-- A file with its findings of a category shown or hidden; a file without any stays as it is. -/
def showGroup (c : Category) (shown : Bool) (g : FileGroup) : FileGroup :=
  if ∃ f ∈ g.findings, f.category = c then
    FileGroup.refresh { g with
      findings := g.findings.map fun f => if f.category = c then setHidden (!shown) f else f }
  else g

theorem foldl_modifyGroup {α : Type} (path : α → Text) (change : α → FileGroup → FileGroup)
    (l : List α) (s : Store) :
    l.foldl (fun s a => s.modifyGroup (path a) (change a)) s =
      { s with files := s.files.map fun g =>
          l.foldl (fun g a => if g.path = path a then change a g else g) g } := by
  induction l generalizing s with
  | nil => simp
  | cons a l ih =>
    rw [List.foldl_cons, ih]
    simp only [modifyGroup, List.map_map, List.foldl_cons]
    rfl

theorem modifyAt_eq_mapIdx (g : FileGroup) (position : Nat) (change : Finding → Finding) :
    g.modifyAt position change =
      { g with findings := g.findings.mapIdx fun i f => if i = position then change f else f } := by
  have h : g.findings.modify position change =
      g.findings.mapIdx fun i f => if i = position then change f else f := by
    apply List.ext_getElem?
    intro i
    rw [List.getElem?_modify, List.getElem?_mapIdx]
    cases g.findings[i]? with
    | none => rfl
    | some f => by_cases hi : position = i <;> simp [hi, eq_comm]
  rw [FileGroup.modifyAt, h]

/-- Hiding slot after slot: exactly the findings in one of the slots get the flag. -/
theorem foldl_modifyAt (hidden : Bool) (slots : List Slot) (g : FileGroup) :
    slots.foldl (fun g slot =>
        if g.path = slot.path then g.modifyAt slot.position (setHidden hidden) else g) g =
      { g with findings := g.findings.mapIdx fun i f =>
          if ⟨g.path, i⟩ ∈ slots then setHidden hidden f else f } := by
  induction slots generalizing g with
  | nil =>
    have h : g.findings.mapIdx (fun _ f => f) = g.findings := by
      apply List.ext_getElem?
      simp
    simp [h]
  | cons slot slots ih =>
    rw [List.foldl_cons, ih]
    by_cases hp : g.path = slot.path
    · rw [if_pos hp, modifyAt_eq_mapIdx]
      simp only [List.mapIdx_mapIdx]
      congr 2
      funext i f
      have hi : (⟨g.path, i⟩ : Slot) = slot ↔ i = slot.position := by
        cases slot
        simp_all
      simp only [Function.comp_apply, List.mem_cons, hi]
      split <;> split <;> simp_all [setHidden]
    · have hne : ∀ i, (⟨g.path, i⟩ : Slot) ≠ slot := fun i e => hp (congrArg Slot.path e)
      simp [hp, hne]

theorem foldl_refresh (paths : List Text) (g : FileGroup) :
    paths.foldl (fun g path => if g.path = path then g.refresh else g) g =
      if g.path ∈ paths then g.refresh else g := by
  induction paths generalizing g with
  | nil => simp
  | cons path paths ih =>
    rw [List.foldl_cons, ih]
    by_cases hp : g.path = path
    · have hr : g.refresh.path = path := hp
      simp only [hp, hr, ↓reduceIte, List.mem_cons, true_or]
      split <;> rfl
    · simp [hp]

/-- Showing or hiding a category through the index changes exactly its findings, and the files that
hold one. -/
theorem WellFormed.showCategory_eq {s : Store} (h : s.WellFormed) (c : Category) (shown : Bool) :
    s.showCategory c shown = { s with files := s.files.map (showGroup c shown) } := by
  unfold showCategory setHiddenAt
  rw [foldl_modifyGroup (fun path => path) (fun _ => FileGroup.refresh),
    foldl_modifyGroup Slot.path fun slot g => g.modifyAt slot.position (setHidden (!shown))]
  simp only [List.map_map, foldl_modifyAt, foldl_refresh]
  congr 1
  apply List.map_congr_left
  intro g hg
  have hf : (g.findings.mapIdx fun i f =>
      if ⟨g.path, i⟩ ∈ s.slotsOf c then setHidden (!shown) f else f) =
      g.findings.map fun f => if f.category = c then setHidden (!shown) f else f := by
    apply List.ext_getElem?
    intro i
    rw [List.getElem?_mapIdx, List.getElem?_map]
    cases hi : g.findings[i]? with
    | none => rfl
    | some f => simp [h.mem_slotsOf_iff hg c i, hi]
  simp only [Function.comp_apply, hf, showGroup, h.mem_pathsOf_iff hg]
  split
  · rfl
  · rename_i hn
    have hid : g.findings.map (fun f => if f.category = c then setHidden (!shown) f else f) =
        g.findings := by
      conv_rhs => rw [← List.map_id g.findings]
      exact List.map_congr_left fun f hf => if_neg fun hc => hn ⟨f, hf, hc⟩
    rw [hid]

theorem GroupFollows.showGroup_eq {m : Mask} {g : FileGroup} (h : GroupFollows m g) (c : Category)
    (shown : Bool) : showGroup c shown g = recomputeGroup (m.set c shown) g := by
  have hf : ∀ f ∈ g.findings, (if f.category = c then setHidden (!shown) f else f) =
      setHidden (!(m.set c shown).shows f.category) f := by
    intro f hf
    rw [Mask.shows_set]
    split
    · rfl
    · exact (setHidden_self (h.1 f hf)).symm
  unfold showGroup recomputeGroup
  split
  · rw [List.map_congr_left hf]
  · rename_i hn
    have hg : GroupFollows (m.set c shown) g := by
      refine ⟨fun f hf => ?_, h.2⟩
      rw [Mask.shows_set, if_neg fun hc => hn ⟨f, hf, hc⟩]
      exact h.1 f hf
    exact hg.recomputeGroup_eq.symm

/-- Where the flags follow the mask, changing one category is computing all flags anew. -/
theorem Follows.showCategory_eq_recompute {s : Store} {m : Mask} (hm : s.Follows m)
    (h : s.WellFormed) (c : Category) (shown : Bool) :
    s.showCategory c shown = s.recompute (m.set c shown) := by
  rw [h.showCategory_eq, recompute]
  congr 1
  exact List.map_congr_left fun g hg => (hm g hg).showGroup_eq c shown

/-! ## One reference, after an addition -/

theorem WellFormed.group?_eq_some_iff {s : Store} (h : s.WellFormed) (path : Text)
    (g : FileGroup) : s.group? path = some g ↔ g ∈ s.files ∧ g.path = path := by
  constructor
  · intro hg
    exact ⟨List.mem_of_find?_eq_some hg, by simpa using List.find?_some hg⟩
  · rintro ⟨hg, rfl⟩
    cases hs : s.group? g.path with
    | none => 
      have := List.find?_eq_none.mp hs g hg
      simp at this
    | some g' =>
      have hp : g'.path = g.path := by simpa using List.find?_some hs
      rw [h.eq_of_path_eq (List.mem_of_find?_eq_some hs) hg hp]

theorem WellFormed.mem_insert {s : Store} (h : s.WellFormed) {f : Finding} {g : FileGroup}
    (hg : g ∈ (s.insert f).files) :
    (g.path ≠ f.file ∧ g ∈ s.files) ∨
      (g.path = f.file ∧ g = (s.groupFor f.file).append f) := by
  have hs := ((h.insert f).group?_eq_some_iff g.path g).mpr ⟨hg, rfl⟩
  rw [group?_insert] at hs
  by_cases hp : g.path = f.file
  · rw [if_pos hp, hp] at hs
    exact Or.inr ⟨hp, (Option.some.inj hs).symm⟩
  · rw [if_neg hp] at hs
    exact Or.inl ⟨hp, ((h.group?_eq_some_iff _ g).mp hs).1⟩

theorem Follows.groupFor {s : Store} {m : Mask} (hm : s.Follows m) (path : Text) :
    GroupFollows m (s.groupFor path) := by
  unfold Store.groupFor
  cases hg : s.group? path with
  | none => exact ⟨fun _ hf => absurd hf List.not_mem_nil, rfl⟩
  | some g => exact hm g (List.mem_of_find?_eq_some hg)

/-- Where the flags follow the mask, applying it to a finding just inserted is computing all flags
anew. -/
theorem Follows.applyMask_insert {s : Store} {m : Mask} (hm : s.Follows m) (h : s.WellFormed)
    (f : Finding) :
    (s.insert f).applyMask m (s.nextRef f.file) = (s.insert f).recompute m := by
  unfold applyMask
  rw [resolve_insert_nextRef]
  simp only [modifyGroup, recompute]
  congr 1
  apply List.map_congr_left
  intro g hg
  have hf : (s.nextRef f.file).path = f.file := rfl
  rcases h.mem_insert hg with ⟨hp, hg⟩ | ⟨hp, rfl⟩
  · rw [hf, if_neg hp, (hm g hg).recomputeGroup_eq]
  · have ho := (hm.groupFor f.file).map_setHidden
    rw [hf, if_pos hp]
    simp [FileGroup.append, FileGroup.modifyAt, FileGroup.refresh, recomputeGroup, nextRef, nextSlot,
      ho, List.modify_eq_take_drop]

end Findings.Store
