import Findings.Proofs.Store.Content
import Mathlib.Data.List.Nodup

/-!
# The index agrees with the files

`Store.WellFormed`: no path has two groups, and the index holds the slot of every stored finding, under
its category, once each. Only adding a finding touches either, so the property follows the content of the
store (`wellFormed_of_content_eq`) and is kept by inserting (`WellFormed.insert`) and by reserving a place for a
file (`WellFormed.reserve`).
-/

namespace Findings

/-- The slots of a file, each with the category of its finding. -/
def FileGroup.slots (g : FileGroup) : List (Category × Slot) :=
  g.findings.mapIdx fun i f => (f.category, ⟨g.path, i⟩)

namespace FileGroup

theorem slots_content (g : FileGroup) : g.content.slots = g.slots := by
  apply List.ext_getElem?
  intro i
  simp [slots, Finding.content, Function.comp_def]

theorem slots_append (g : FileGroup) (f : Finding) :
    (g.append f).slots = g.slots ++ [(f.category, ⟨g.path, g.findings.length⟩)] := by
  simp [slots, append]

theorem mem_slots_iff (g : FileGroup) (c : Category) (slot : Slot) :
    (c, slot) ∈ g.slots ↔
      g.path = slot.path ∧ ∃ f, g.findings[slot.position]? = some f ∧ f.category = c := by
  simp only [slots, List.mem_mapIdx, Prod.mk.injEq]
  constructor
  · rintro ⟨i, hi, rfl, rfl⟩
    exact ⟨rfl, g.findings[i], List.getElem?_eq_getElem hi, rfl⟩
  · rintro ⟨hp, f, hf, rfl⟩
    obtain ⟨hi, rfl⟩ := List.getElem?_eq_some_iff.mp hf
    exact ⟨slot.position, hi, rfl, by rw [hp]⟩

end FileGroup

namespace Store

/-- The slots of all findings, in the order of the files. -/
def slots (s : Store) : List (Category × Slot) := s.files.flatMap FileGroup.slots

theorem slots_content (s : Store) : s.content.slots = s.slots := by
  simp [slots, List.flatMap_map, FileGroup.slots_content]

/-- No path has two groups, and the index holds the slot of each finding once. -/
structure WellFormed (s : Store) : Prop where
  paths_nodup : (s.files.map (·.path)).Nodup
  index_perm : s.index.Perm s.slots

theorem wellFormed_content_iff (s : Store) : s.content.WellFormed ↔ s.WellFormed := by
  have hp : s.content.files.map (·.path) = s.files.map (·.path) := by simp
  constructor
  · rintro ⟨hn, hi⟩
    exact ⟨hp ▸ hn, s.slots_content ▸ hi⟩
  · rintro ⟨hn, hi⟩
    exact ⟨hp.symm ▸ hn, s.slots_content.symm ▸ hi⟩

theorem wellFormed_of_content_eq {s s' : Store} (h : s'.content = s.content) (hs : s.WellFormed) :
    s'.WellFormed := by
  rw [← wellFormed_content_iff, h, wellFormed_content_iff]
  exact hs

/-- A store without findings, of any generation. -/
theorem wellFormed_empty (generation : Nat) : ({ generation } : Store).WellFormed :=
  ⟨List.nodup_nil, List.Perm.refl _⟩

/-! ## Inserting -/

theorem path_mem_place {f : Finding} {gs : List FileGroup} {path : Text}
    (h : path ∈ (place f gs).map (·.path)) : path = f.file ∨ path ∈ gs.map (·.path) := by
  induction gs with
  | nil => simpa [place, FileGroup.append] using h
  | cons g gs ih =>
    by_cases hg : g.path = f.file
    · simp only [place, hg, ↓reduceIte, List.map_cons, List.mem_cons] at h ⊢
      rcases h with h | h
      · exact Or.inl (h.trans hg)
      · exact Or.inr (Or.inr h)
    · simp only [place, hg, ↓reduceIte, List.map_cons, List.mem_cons] at h ⊢
      rcases h with h | h
      · exact Or.inr (Or.inl h)
      · exact (ih h).imp_right Or.inr

theorem place_paths_nodup (f : Finding) {gs : List FileGroup} (h : (gs.map (·.path)).Nodup) :
    ((place f gs).map (·.path)).Nodup := by
  induction gs with
  | nil => simp [place]
  | cons g gs ih =>
    rw [List.map_cons, List.nodup_cons] at h
    by_cases hg : g.path = f.file
    · simpa [place, hg, FileGroup.append] using h
    · simp only [place, hg, ↓reduceIte, List.map_cons, List.nodup_cons]
      refine ⟨fun hm => ?_, ih h.2⟩
      rcases path_mem_place hm with e | hm
      · exact hg e
      · exact h.1 hm

theorem place_slots_perm (f : Finding) (gs : List FileGroup) :
    ((place f gs).flatMap FileGroup.slots).Perm (gs.flatMap FileGroup.slots ++
      [(f.category,
        ⟨f.file, ((gs.find? fun g => g.path = f.file).map (·.findings.length)).getD 0⟩)]) := by
  induction gs with
  | nil => simp [place, FileGroup.append, FileGroup.slots]
  | cons g gs ih =>
    by_cases hg : g.path = f.file
    · simp only [place, hg, ↓reduceIte, List.flatMap_cons, FileGroup.slots_append, decide_true,
        List.find?_cons_of_pos, Option.map_some, Option.getD_some, List.append_assoc]
      exact (List.perm_append_comm).append_left _
    · simp only [place, hg, ↓reduceIte, List.flatMap_cons, decide_false, Bool.false_eq_true,
        not_false_eq_true, List.find?_cons_of_neg, List.append_assoc]
      exact ih.append_left _

theorem WellFormed.insert {s : Store} (h : s.WellFormed) (f : Finding) :
    (s.insert f).WellFormed where
  paths_nodup := place_paths_nodup f h.paths_nodup
  index_perm := by
    refine (h.index_perm.append_right _).trans ?_
    have hp := place_slots_perm f s.files
    rw [show (s.files.find? fun g => g.path = f.file) = s.group? f.file from rfl,
      groupFor_length] at hp
    exact hp.symm

theorem WellFormed.reserve {s : Store} (h : s.WellFormed) (path : Text) : (s.reserve path).WellFormed := by
  by_cases hmem : path ∈ s.files.map (·.path)
  · rwa [reserve_of_mem hmem]
  · rw [reserve_of_not_mem hmem]
    refine ⟨?_, ?_⟩
    · rw [List.map_append]
      exact List.nodup_append.mpr ⟨h.paths_nodup, List.nodup_singleton _, by simpa using hmem⟩
    · have hslots : ({ s with files := s.files ++ [{ path }] } : Store).slots = s.slots := by
        simp [slots, FileGroup.slots]
      rw [hslots]
      exact h.index_perm

/-! ## Reading the index -/

theorem WellFormed.eq_of_path_eq {s : Store} (h : s.WellFormed) {g g' : FileGroup}
    (hg : g ∈ s.files) (hg' : g' ∈ s.files) (hp : g.path = g'.path) : g = g' :=
  List.inj_on_of_nodup_map h.paths_nodup hg hg' hp

/-- The slots listed under a category are those of its findings. -/
theorem WellFormed.mem_slotsOf_iff {s : Store} (h : s.WellFormed) {g : FileGroup}
    (hg : g ∈ s.files) (c : Category) (i : Nat) :
    ⟨g.path, i⟩ ∈ s.slotsOf c ↔ ∃ f, g.findings[i]? = some f ∧ f.category = c := by
  have hm : (⟨g.path, i⟩ : Slot) ∈ s.slotsOf c ↔ (c, (⟨g.path, i⟩ : Slot)) ∈ s.slots := by
    rw [← h.index_perm.mem_iff]
    simp [slotsOf]
  rw [hm, slots, List.mem_flatMap]
  constructor
  · rintro ⟨g', hg', hs⟩
    obtain ⟨hp, hf⟩ := (g'.mem_slots_iff c _).mp hs
    rwa [h.eq_of_path_eq hg' hg hp] at hf
  · intro hf
    exact ⟨g, hg, (g.mem_slots_iff c _).mpr ⟨rfl, hf⟩⟩

theorem WellFormed.mem_pathsOf_iff {s : Store} (h : s.WellFormed) {g : FileGroup}
    (hg : g ∈ s.files) (c : Category) :
    g.path ∈ s.pathsOf c ↔ ∃ f ∈ g.findings, f.category = c := by
  simp only [pathsOf, List.mem_eraseDups, List.mem_map]
  constructor
  · rintro ⟨⟨path, i⟩, hs, rfl⟩
    obtain ⟨f, hf, hc⟩ := (h.mem_slotsOf_iff hg c i).mp hs
    exact ⟨f, List.mem_of_getElem? hf, hc⟩
  · rintro ⟨f, hf, hc⟩
    obtain ⟨i, hi⟩ := List.getElem?_of_mem hf
    exact ⟨_, (h.mem_slotsOf_iff hg c i).mpr ⟨f, hi, hc⟩, rfl⟩

end Store
end Findings
