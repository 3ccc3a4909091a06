import Findings.Proofs.Tree.Accumulation

/-!
# What adding changes

`Store.Appended` says that groups have one finding more: at the end of the group of its file, with the flag of
that group computed anew, or in a new group at the end if the file had none. Filing a finding appends it, with
the flag that the mask gives it, and notes its slot in the index (`file_eq`). So an addition is refused with
nothing changed, or appends one finding and changes nothing else (`add_all_or_nothing`).
-/

namespace Findings

/-- The last finding of a group changed, and the flag of the group computed anew. -/
theorem FileGroup.refresh_modifyAt_append (g : FileGroup) (f : Finding) (change : Finding → Finding) :
    ((g.append f).modifyAt g.findings.length change).refresh =
      { g with
        findings := g.findings ++ [change f]
        hidden := (g.findings ++ [change f]).all (·.hidden) } := by
  simp [append, modifyAt, refresh, List.modify_eq_take_drop]

namespace Store

/-- The groups with a finding more. Those of other files stay as they are. -/
inductive Appended (f : Finding) : List FileGroup → List FileGroup → Prop
  | known (before after : List FileGroup) (g : FileGroup) :
      g.path = f.file → (∀ g' ∈ before ++ after, g'.path ≠ f.file) →
      Appended f (before ++ g :: after)
        (before ++ { g with
          findings := g.findings ++ [f], hidden := (g.findings ++ [f]).all (·.hidden) } :: after)
  | new (gs : List FileGroup) : (∀ g ∈ gs, g.path ≠ f.file) →
      Appended f gs (gs ++ [{ path := f.file, findings := [f], hidden := f.hidden }])

theorem Appended.length_findings {f : Finding} {gs gs' : List FileGroup} (h : Appended f gs gs') :
    (gs'.flatMap (·.findings)).length = (gs.flatMap (·.findings)).length + 1 := by
  cases h with
  | known before after g _ _ =>
    simp only [List.flatMap_append, List.flatMap_cons, List.length_append, List.length_singleton]
    omega
  | new gs _ => simp [List.flatMap_append]

/-- A finding is placed in the first group of its file, or in a new one at the end. -/
theorem place_cases (f : Finding) (gs : List FileGroup) :
    (∃ before g after, gs = before ++ g :: after ∧ g.path = f.file ∧
      place f gs = before ++ g.append f :: after) ∨
      (∀ g ∈ gs, g.path ≠ f.file) ∧ place f gs = gs ++ [FileGroup.append { path := f.file } f] := by
  induction gs with
  | nil => exact .inr ⟨fun _ h => absurd h List.not_mem_nil, rfl⟩
  | cons g gs ih =>
    by_cases hg : g.path = f.file
    · exact .inl ⟨[], g, gs, rfl, hg, place_cons_of_eq hg gs⟩
    · rcases ih with ⟨before, g', after, rfl, hg', hplace⟩ | ⟨hnone, hplace⟩
      · exact .inl ⟨g :: before, g', after, rfl, hg', by rw [place_cons_of_ne hg, hplace]; rfl⟩
      · exact .inr ⟨List.forall_mem_cons.mpr ⟨hg, hnone⟩, by rw [place_cons_of_ne hg, hplace]; rfl⟩

theorem groupFor_of_forall_ne {s : Store} {path : Text} (h : ∀ g ∈ s.files, g.path ≠ path) :
    s.groupFor path = { path } := by
  have hnone : s.group? path = none := by
    rw [group?, List.find?_eq_none]
    simpa using h
  rw [groupFor, hnone]
  rfl

/-- A mask applied to a finding just inserted sets its flag and refreshes its group. -/
theorem applyMask_insert (s : Store) (m : Mask) (f : Finding) :
    (s.insert f).applyMask m (s.nextRef f.file) = { s.insert f with
      files := (place f s.files).map fun g =>
        if g.path = f.file then
          (g.modifyAt (s.groupFor f.file).findings.length (setHidden (!m.shows f.category))).refresh
        else g } := by
  unfold applyMask
  rw [resolve_insert_nextRef]
  rfl

theorem map_of_forall_ne {path : Text} {gs : List FileGroup} (h : ∀ g ∈ gs, g.path ≠ path)
    (change : FileGroup → FileGroup) : gs.map (fun g => if g.path = path then change g else g) = gs := by
  conv_rhs => rw [← List.map_id gs]
  exact List.map_congr_left fun g hg => if_neg (h g hg)

theorem WellFormed.appended {s : Store} (h : s.WellFormed) (m : Mask) (f : Finding) :
    Appended (setHidden (!m.shows f.category) f) s.files
      ((s.insert f).applyMask m (s.nextRef f.file)).files := by
  rw [applyMask_insert]
  dsimp only
  rcases place_cases f s.files with ⟨before, g, after, hfiles, hg, hplace⟩ | ⟨hnone, hplace⟩
  · -- No other group is of this file, since no path has two groups.
    have hothers : ∀ g' ∈ before ++ after, g'.path ≠ f.file := by
      have hpaths := h.paths_nodup
      rw [hfiles, List.map_append, List.map_cons, List.nodup_middle, List.nodup_cons] at hpaths
      intro g' hg' hpath
      refine hpaths.1 ?_
      rw [← List.map_append, hg, ← hpath]
      exact List.mem_map_of_mem hg'
    have hfor : s.groupFor f.file = g := by
      have hmem : g ∈ s.files := by simp [hfiles]
      rw [groupFor, (h.group?_eq_some_iff f.file g).mpr ⟨hmem, hg⟩]
      rfl
    rw [List.forall_mem_append] at hothers
    have hpath : (g.append f).path = f.file := hg
    rw [hplace, hfor, List.map_append, List.map_cons, map_of_forall_ne hothers.1,
      map_of_forall_ne hothers.2, if_pos hpath, g.refresh_modifyAt_append, hfiles]
    exact .known before after g hg (List.forall_mem_append.mpr hothers)
  · have hpath : (FileGroup.append { path := f.file } f).path = f.file := rfl
    have hhidden : ([] ++ [setHidden (!m.shows f.category) f]).all (·.hidden) =
        (setHidden (!m.shows f.category) f).hidden := by simp
    rw [hplace, groupFor_of_forall_ne hnone, List.map_append, map_of_forall_ne hnone,
      List.map_singleton, if_pos hpath, FileGroup.refresh_modifyAt_append, hhidden]
    exact .new s.files hnone

end Store

namespace Tree

/-- Filing a finding appends it, with the flag that the mask gives it, and notes its slot. -/
theorem file_eq {v : Filtered} (h : v.store.WellFormed) (f : Finding) :
    ∃ files, Store.Appended (Store.setHidden (!v.mask.shows f.category) f) v.store.files files ∧
      file v f = ⟨{ v.store with
        files, index := v.store.index ++ [(f.category, v.store.nextSlot f.file)] }, v.mask⟩ := by
  refine ⟨_, h.appended v.mask f, ?_⟩
  rw [file, Store.applyMask_insert]
  rfl

/-- Adding is all or nothing. In every state of a tree and for every report, of whatever values: the report is
refused, and the tree is as it was; or it is filed, and the tree differs in one finding more at the end of the
group of its file, which is new at the end if there was none, in the flag of this group, and in the slot of the
finding at the end of the index. -/
theorem add_all_or_nothing (mask : Mask) (policy : PathPolicy) (applications : Registry)
    (before : List Op) (r : Report) :
    let t := ({ view := { mask }, policy, applications } : Tree).run before
    let o := t.add r
    (∃ e, o.result = .error e ∧ o.state = t) ∨
    ∃ f files, r.Yields f ∧ o.result = .ok (t.store.nextRef f.file) ∧
      Store.Appended (Store.setHidden (!t.mask.shows f.category) f) t.store.files files ∧
      o.state = { t with view := ⟨{ t.store with
        files, index := t.store.index ++ [(f.category, t.store.nextSlot f.file)] }, t.mask⟩ } := by
  intro t o
  have hsound : Filters.Sound t.store :=
    run_sound (t := { view := { mask }, policy, applications }) (Filters.sound_empty 0) before
  rcases add_cases t r with ⟨e, log, hadd⟩ | ⟨f, log, hy, hadd⟩
  · exact .inl ⟨e, congrArg Outcome.result hadd, congrArg Outcome.state hadd⟩
  · obtain ⟨files, happended, hfile⟩ := file_eq hsound.wellFormed f
    refine .inr ⟨f, files, hy, congrArg Outcome.result hadd, happended, ?_⟩
    exact (congrArg Outcome.state hadd).trans (congrArg (fun view => { t with view }) hfile)

end Tree
end Findings
