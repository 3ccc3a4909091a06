import Findings.Proofs.Lists
import Findings.Proofs.Store.Visibility

/-!
# Changing one category

Showing or hiding a category reaches its findings through the index, and their files through the paths in it.
In a well-formed store these are just the files that hold a finding of the category, each once
(`WellFormed.pathsOf_perm`). File by file, the findings of the category get the new flag and the flag of the
file is computed anew; all else stays as it is (`changed_showGroup`), whatever the flags were before. So of
several changes of one category the last one counts (`Filtered.setMask_setMask`), and a change is confined to
its category (`setMask_confined`).
-/

namespace Findings

/-! ## Files -/

namespace FileGroup

/-- The file holds a finding of the category. -/
def holds (c : Category) (g : FileGroup) : Bool := g.findings.any fun f => f.category = c

theorem holds_iff {c : Category} {g : FileGroup} : g.holds c ↔ ∃ f ∈ g.findings, f.category = c := by
  simp [holds]

/-- `g'` is the file `g` after a category was shown or hidden. -/
structure Changed (c : Category) (shown : Bool) (g g' : FileGroup) : Prop where
  path : g'.path = g.path
  findings : List.Forall₂
    (fun f f' => f' = if f.category = c then { f with hidden := !shown } else f) g.findings g'.findings
  flag : g.holds c → g'.hidden = g'.findings.all (·.hidden)
  untouched : ¬g.holds c → g' = g

end FileGroup

namespace Store

theorem changed_showGroup (c : Category) (shown : Bool) (g : FileGroup) :
    g.Changed c shown (showGroup c shown g) := by
  by_cases hc : ∃ f ∈ g.findings, f.category = c
  · have hshow : showGroup c shown g = FileGroup.refresh { g with
        findings := g.findings.map fun f => if f.category = c then setHidden (!shown) f else f } :=
      if_pos hc
    rw [hshow]
    refine ⟨rfl, ?_, fun _ => rfl, fun hnone => absurd (FileGroup.holds_iff.mpr hc) hnone⟩
    exact List.forall₂_map_right_iff.mpr (List.forall₂_same.mpr fun _ _ => rfl)
  · have hshow : showGroup c shown g = g := if_neg hc
    rw [hshow]
    refine ⟨rfl, List.forall₂_same.mpr fun f hf => ?_, fun h => absurd (FileGroup.holds_iff.mp h) hc,
      fun _ => rfl⟩
    exact (if_neg fun hfc => hc ⟨f, hf, hfc⟩).symm

/-- Of two changes of a category in a file the second one counts. -/
theorem showGroup_showGroup (c : Category) (shown again : Bool) (g : FileGroup) :
    showGroup c again (showGroup c shown g) = showGroup c again g := by
  have htwice : ∀ f : Finding,
      (if (if f.category = c then setHidden (!shown) f else f).category = c then
        setHidden (!again) (if f.category = c then setHidden (!shown) f else f)
      else if f.category = c then setHidden (!shown) f else f) =
        if f.category = c then setHidden (!again) f else f := by
    intro f
    by_cases hf : f.category = c <;> simp [hf, setHidden]
  by_cases hc : ∃ f ∈ g.findings, f.category = c
  · obtain ⟨f, hf, hfc⟩ := hc
    have hheld : ∃ f' ∈ (showGroup c shown g).findings, f'.category = c := by
      rw [showGroup, if_pos ⟨f, hf, hfc⟩]
      refine ⟨_, List.mem_map_of_mem hf, ?_⟩
      rw [if_pos hfc]
      exact hfc
    rw [showGroup, if_pos hheld, showGroup, showGroup, if_pos ⟨f, hf, hfc⟩, if_pos ⟨f, hf, hfc⟩]
    simp only [FileGroup.refresh, List.map_map, Function.comp_def, htwice]
  · have hshow : showGroup c shown g = g := if_neg hc
    rw [hshow]

/-! ## The files of a category -/

/-- The files that hold a finding of a category. -/
def holding (s : Store) (c : Category) : List FileGroup := s.files.filter (·.holds c)

section WellFormed

variable {s : Store} (h : s.WellFormed)
include h

/-- The index lists under a category only slots of files that hold one of its findings. -/
theorem WellFormed.exists_of_mem_slotsOf {c : Category} {slot : Slot} (hslot : slot ∈ s.slotsOf c) :
    ∃ g ∈ s.holding c, g.path = slot.path := by
  have hindex : (c, slot) ∈ s.index := by simpa [slotsOf] using hslot
  rw [h.index_perm.mem_iff, slots, List.mem_flatMap] at hindex
  obtain ⟨g, hg, hmem⟩ := hindex
  obtain ⟨hpath, f, hf, hfc⟩ := (g.mem_slots_iff c slot).mp hmem
  have hholds : g.holds c := FileGroup.holds_iff.mpr ⟨f, List.mem_of_getElem? hf, hfc⟩
  exact ⟨g, List.mem_filter.mpr ⟨hg, hholds⟩, hpath⟩

/-- The paths found through the index are those of the files that hold a finding of the category. -/
theorem WellFormed.pathsOf_perm (c : Category) :
    (s.pathsOf c).Perm ((s.holding c).map (·.path)) := by
  have hnodup : ((s.holding c).map (·.path)).Nodup :=
    h.paths_nodup.sublist (List.filter_sublist.map _)
  refine (List.perm_ext_iff_of_nodup (nodup_eraseDups _) hnodup).mpr fun path => ?_
  constructor
  · intro hpath
    obtain ⟨slot, hslot, rfl⟩ := List.mem_map.mp (List.mem_eraseDups.mp hpath)
    obtain ⟨g, hg, hgpath⟩ := h.exists_of_mem_slotsOf hslot
    exact List.mem_map.mpr ⟨g, hg, hgpath⟩
  · intro hpath
    obtain ⟨g, hg, rfl⟩ := List.mem_map.mp hpath
    obtain ⟨hfile, hholds⟩ := List.mem_filter.mp hg
    exact (h.mem_pathsOf_iff hfile c).mpr (FileGroup.holds_iff.mp hholds)

theorem WellFormed.showCategory (c : Category) (shown : Bool) : (s.showCategory c shown).WellFormed :=
  wellFormed_of_content_eq (s.content_showCategory c shown) h

theorem WellFormed.showCategory_showCategory (c : Category) (shown again : Bool) :
    (s.showCategory c shown).showCategory c again = s.showCategory c again := by
  rw [(h.showCategory c shown).showCategory_eq, h.showCategory_eq, h.showCategory_eq]
  simp only [List.map_map, Function.comp_def, showGroup_showGroup]

theorem WellFormed.pathsOf_showCategory (c : Category) (shown : Bool) :
    (s.showCategory c shown).pathsOf c = s.pathsOf c := by
  rw [h.showCategory_eq]
  rfl

end WellFormed

end Store

/-! ## The whole change -/

namespace Filtered

variable {s : Filtered}

/-- Of two changes of one category the second one counts, its answer and its event included. -/
theorem setMask_setMask (h : s.store.WellFormed) (c : Category) (shown again : Bool) :
    (s.setMask (.real c) shown).state.setMask (.real c) again = s.setMask (.real c) again := by
  simp only [setMask, Outcome.ok, h.showCategory_showCategory, h.pathsOf_showCategory, Mask.set_set]

/-- Showing or hiding a category in a well-formed store, whatever its flags are: it succeeds; file by file,
exactly the findings of the category get the new flag and nothing else of a finding changes, a file that holds
one is then hidden just when all its findings are, and any other file stays as it is; index, generation and the
rest of the mask stay as well. The event tells how many files hold a finding of the category. Doing it again
changes nothing, and of two changes of the category the second one counts. -/
theorem setMask_confined (h : s.store.WellFormed) (c : Category) (shown : Bool) :
    let o := s.setMask (.real c) shown
    o.result = .ok () ∧
    List.Forall₂ (FileGroup.Changed c shown) s.store.files o.state.store.files ∧
    o.state.store.index = s.store.index ∧ o.state.store.generation = s.store.generation ∧
    (∀ c', o.state.mask.shows c' = if c' = c then shown else s.mask.shows c') ∧
    o.log.map (·.message) =
      ["Category " ++ c.label ++ (if shown then " shown (" else " hidden (") ++
        Text.ofNat (s.store.holding c).length ++ " files affected)"] ∧
    (o.state.setMask (.real c) shown).state = o.state ∧
    ∀ again, o.state.setMask (.real c) again = s.setMask (.real c) again := by
  intro o
  have hstore : o.state.store = { s.store with files := s.store.files.map (Store.showGroup c shown) } :=
    h.showCategory_eq c shown
  have hcount : (s.store.pathsOf c).length = (s.store.holding c).length := by
    rw [(h.pathsOf_perm c).length_eq, List.length_map]
  refine ⟨rfl, ?_, ?_, ?_, fun c' => s.mask.shows_set c c' shown, ?_, ?_,
    setMask_setMask h c shown⟩
  · rw [hstore, List.forall₂_map_right_iff, List.forall₂_same]
    exact fun g _ => Store.changed_showGroup c shown g
  · rw [hstore]
  · rw [hstore]
  · rw [← hcount]
    rfl
  · exact congrArg Outcome.state (setMask_setMask h c shown shown)

/-- Two files with findings of two categories, added with flags that follow no mask. -/
def oddFlags : Filtered where
  store :=
    (((({} : Store).add { file := "/a.c", category := .real .style, message := .null, hidden := true }).1.add
      { file := "/a.c", category := .real .error, message := .null, hidden := true }).1.add
      { file := "/b.c", category := .real .error, message := .null }).1

theorem oddFlags_confined :
    oddFlags.store.WellFormed ∧
      (oddFlags.store.files.map fun g => (g.hidden, g.findings.map (·.hidden))) =
        [(true, [true, true]), (false, [false])] ∧
      ((oddFlags.setMask (.real .style) true).state.store.files.map fun g =>
        (g.hidden, g.findings.map (·.hidden))) = [(false, [false, true]), (false, [false])] ∧
      (oddFlags.setMask (.real .style) true).log.map (·.message) =
        [Text.ofString "Category style shown (1 files affected)"] ∧
      ((oddFlags.setMask (.real .style) true).state.setMask (.real .style) false) =
        oddFlags.setMask (.real .style) false := by
  have h : oddFlags.store.WellFormed :=
    (((Store.wellFormed_empty 0).insert _).insert _).insert _
  obtain ⟨-, -, -, -, -, hlog, -, hlast⟩ := setMask_confined h .style true
  exact ⟨h, by decide, by decide, hlog, hlast false⟩

end Filtered
end Findings
