import Findings.Proofs.Tree.Visibility

/-!
# Refused mask changes

A refused change of one category leaves everything as it was (`setMask_rejected`). A refused bulk change
leaves the store as it was, but the entries in front of the sentinel stay set in the mask
(`setMasks_rejected`). So it is undone just when these entries say what the mask said before, and the
flags still follow the mask just when those that do not name categories without findings
(`rejected_change_kept_iff`). `rejected_change_not_undone` is a call that leaves a mask and flags that
disagree.
-/

namespace Findings

namespace Filtered

theorem setMask_rejected {s : Filtered} {code : CategoryCode} {shown : Bool} {e : Error}
    (h : (s.setMask code shown).result = .error e) : (s.setMask code shown).state = s := by
  cases code with
  | sentinel => rfl
  | real c => cases h

theorem setMasks_result (s : Filtered) (entries : List (CategoryCode × Bool)) :
    (s.setMasks entries).result =
      if .sentinel ∈ entries.map (·.1) then .error (.invalidCategory (.category .sentinel))
      else .ok () := by
  unfold setMasks
  rw [Mask.setAll_eq]
  split <;> rename_i h <;> split at h <;> simp_all [Outcome.ok, Outcome.error]

theorem setMasks_rejected (s : Filtered) {entries : List (CategoryCode × Bool)}
    (he : .sentinel ∈ entries.map (·.1)) :
    (s.setMasks entries).state = { s with mask := s.mask.setEach (Mask.leading entries) } := by
  unfold setMasks
  rw [Mask.setAll_eq, if_pos he]
  rfl

end Filtered

namespace Store

theorem Follows.follows_iff {s : Store} {m : Mask} (h : s.Follows m) (m' : Mask) :
    s.Follows m' ↔
      ∀ g ∈ s.files, ∀ f ∈ g.findings, m'.shows f.category = m.shows f.category := by
  constructor
  · intro h' g hg f hf
    have e : (!m'.shows f.category) = !m.shows f.category :=
      ((h' g hg).1 f hf).symm.trans ((h g hg).1 f hf)
    simpa using e
  · intro h' g hg
    refine ⟨fun f hf => ?_, (h g hg).2⟩
    rw [h' g hg f hf]
    exact (h g hg).1 f hf

/-- Flags that follow a mask follow it with entries set just when the entries that change it name
categories without findings. -/
theorem Follows.setEach_iff {s : Store} {m : Mask} (h : s.Follows m)
    {entries : List (Category × Bool)} (hn : (entries.map (·.1)).Nodup) :
    s.Follows (m.setEach entries) ↔
      ∀ e ∈ entries, m.shows e.1 = e.2 ∨ ∀ g ∈ s.files, ∀ f ∈ g.findings, f.category ≠ e.1 := by
  rw [h.follows_iff]
  constructor
  · intro hs e he
    by_cases hm : m.shows e.1 = e.2
    · exact Or.inl hm
    · refine Or.inr fun g hg f hf hc => hm ?_
      rw [← hc, ← hs g hg f hf, hc, Mask.shows_setEach hn he]
  · intro hs g hg f hf
    by_cases hc : f.category ∈ entries.map (·.1)
    · obtain ⟨e, he, hce⟩ := List.mem_map.mp hc
      rcases hs e he with hm | hno
      · rw [← hce, Mask.shows_setEach hn he, hm]
      · exact absurd hce.symm (hno g hg f hf)
    · exact Mask.shows_setEach_of_not_mem hc m

end Store

namespace Tree

/-- Exactly when a refused mask change leaves everything as it was. For one category: always. For
several: the store always stays, the mask stays just when each entry in front of the sentinel says what
it said before, and the flags still follow the mask just when the entries that say something else name
categories without findings. -/
theorem rejected_change_kept_iff (t : Tree) (entries : List (CategoryCode × Bool))
    (hkeys : (entries.map (·.1)).Nodup) :
    (∀ code shown e, (t.view.setMask code shown).result = .error e →
      (t.view.setMask code shown).state = t.view) ∧
    (∀ code shown e, (t.showCategory code shown).result = .error e →
      (t.showCategory code shown).state = t) ∧
    (t.showCategories entries).result = (t.view.setMasks entries).result ∧
    ((∃ e, (t.view.setMasks entries).result = .error e) ↔ .sentinel ∈ entries.map (·.1)) ∧
    (.sentinel ∈ entries.map (·.1) →
      (t.showCategories entries).state.store = t.store ∧
      ((t.view.setMasks entries).state = t.view ↔
        ∀ e ∈ Mask.leading entries, t.mask.shows e.1 = e.2) ∧
      ((t.showCategories entries).state = t ↔
        ∀ e ∈ Mask.leading entries, t.mask.shows e.1 = e.2) ∧
      (t.store.Follows t.mask →
        ((t.showCategories entries).state.store.Follows (t.showCategories entries).state.mask ↔
          ∀ e ∈ Mask.leading entries, t.mask.shows e.1 = e.2 ∨
            ∀ g ∈ t.store.files, ∀ f ∈ g.findings, f.category ≠ e.1))) := by
  refine ⟨fun _ _ _ => Filtered.setMask_rejected, fun code shown e h => ?_, rfl, ?_, fun he => ?_⟩
  · exact congrArg (fun view => { t with view }) (Filtered.setMask_rejected h)
  · rw [Filtered.setMasks_result]
    split <;> simp_all
  · have hs := t.view.setMasks_rejected he
    have hn := Mask.leading_nodup hkeys
    have hm : (t.view.setMasks entries).state = t.view ↔
        ∀ e ∈ Mask.leading entries, t.mask.shows e.1 = e.2 := by
      rw [hs, ← Mask.setEach_eq_self_iff hn]
      exact ⟨fun h => congrArg Filtered.mask h, fun h => congrArg (Filtered.mk t.view.store) h⟩
    have hstate : (t.showCategories entries).state =
        { t with view := (t.view.setMasks entries).state } := rfl
    refine ⟨?_, hm, ?_, fun hf => ?_⟩
    · rw [hstate, hs]
      rfl
    · rw [← hm, hstate]
      exact ⟨fun h => congrArg Tree.view h, fun h => congrArg (fun view => { t with view }) h⟩
    · rw [hstate, hs]
      exact hf.setEach_iff hn

/-- A tree with one finding, of a category that is shown. -/
def oneStyle : Tree := ({} : Tree).run [.add unusedVariable]

/-- Hides the style findings, then names the sentinel. -/
def refusedChange : List (CategoryCode × Bool) := [(.real .style, false), (.sentinel, true)]

theorem oneStyle_change_kept_iff :
    (refusedChange.map (·.1)).Nodup ∧
    ((oneStyle.showCategories refusedChange).state = oneStyle ↔
      ∀ e ∈ Mask.leading refusedChange, oneStyle.mask.shows e.1 = e.2) := by
  have hkeys : (refusedChange.map (·.1)).Nodup := by decide
  exact ⟨hkeys, ((rejected_change_kept_iff oneStyle _ hkeys).2.2.2.2 (by decide)).2.2.1⟩

/-- The call is refused, yet the category is masked out from then on while its finding stays shown. -/
theorem rejected_change_not_undone :
    (oneStyle.showCategories refusedChange).result =
        .error (.invalidCategory (.category .sentinel)) ∧
      (oneStyle.showCategories refusedChange).state.mask ≠ oneStyle.mask ∧
      oneStyle.store.Follows oneStyle.mask ∧
      ¬ (oneStyle.showCategories refusedChange).state.store.Follows
        (oneStyle.showCategories refusedChange).state.mask := by
  refine ⟨rfl, ?_, ?_, ?_⟩ <;> decide

end Tree
end Findings
