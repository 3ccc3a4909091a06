import Findings.Proofs.Store.Run
import Findings.Proofs.Tree.Steps

/-!
# References along every run

A reference that an addition gives out resolves to the finding added, flag apart, in every later state up
to the next clearing; from then on it never resolves again, also when its slot is filled anew; and no
other addition of the run gives it out (`reference_lifetime`). This holds for a tree, and for a store that
is used directly with filters over it.
-/

namespace Findings.Tree

theorem later_file (v : Filtered) (f : Finding) : (v.store.insert f).Later (file v f).store False :=
  .of_content_eq (Store.content_applyMask _ _ _) not_false

theorem ViewStep.later {v v' : Filtered} {op : Op} (h : ViewStep v op v') :
    v.store.Later v'.store (.clear = op) := by
  cases h with
  | same op hop => exact .of_content_eq rfl hop.symm
  | @filed r f _ =>
    have hstep := (v.store.later_insert f not_false).trans (later_file v f)
    simpa using hstep
  | cleared => exact Store.later_clear _ rfl
  | category code shown => exact .of_content_eq (v.content_setMask code shown) (by simp)
  | categories entries => exact .of_content_eq (v.content_setMasks entries) (by simp)

theorem run_later (t : Tree) (ops : List Op) : t.store.Later (t.run ops).store (.clear ∈ ops) := by
  induction ops generalizing t with
  | nil => exact .of_content_eq rfl (by simp)
  | cons op ops ih =>
    rw [List.mem_cons]
    exact (view_step t op).later.trans (ih _)

theorem step_add_ref {t : Tree} {r : Report} {ref : Ref}
    (h : (t.step (.add r)).2.result = .ok (.ref ref)) :
    ∃ f, r.Yields f ∧ ref = t.store.nextRef f.file ∧ (t.step (.add r)).1.view = file t.view f := by
  simp only [step] at h ⊢
  rcases add_cases t r with ⟨e, log, ha⟩ | ⟨f, log, hy, ha⟩
  · rw [ha] at h
    cases h
  · rw [ha] at h ⊢
    cases h
    exact ⟨f, hy, rfl, rfl⟩

/-- The life of a reference given out by a tree. -/
theorem run_reference {t : Tree} {r : Report} {ref : Ref}
    (h : (t.step (.add r)).2.result = .ok (.ref ref)) :
    ∃ f, r.Yields f ∧ ∀ after : List Op,
      (.clear ∉ after →
        ∃ hidden, (t.run (.add r :: after)).store.resolve ref = some { f with hidden }) ∧
      (.clear ∈ after → (t.run (.add r :: after)).store.resolve ref = none) ∧
      ∀ r' ref', ((t.run (.add r :: after)).step (.add r')).2.result = .ok (.ref ref') →
        ref' ≠ ref := by
  obtain ⟨f, hy, rfl, hv⟩ := step_add_ref h
  refine ⟨f, hy, fun after => ?_⟩
  have hl : (t.store.insert f).Later (t.run (.add r :: after)).store (.clear ∈ after) := by
    have hs : (t.step (.add r)).1.store = (file t.view f).store := congrArg Filtered.store hv
    have hr := run_later (t.step (.add r)).1 after
    rw [hs] at hr
    rw [← false_or (.clear ∈ after)]
    exact (later_file t.view f).trans hr
  refine ⟨hl.resolve_nextRef, hl.resolve_eq_none, fun r' ref' h' => ?_⟩
  obtain ⟨f', _, rfl, _⟩ := step_add_ref h'
  exact hl.nextRef_ne f'.file

/-- A reference given out by an addition resolves to the finding of that addition until the next clearing,
never again after it, and is given out by no other addition: for a tree, and for a store with filters. -/
theorem reference_lifetime :
    (∀ (t : Tree) (r : Report) (ref : Ref), (t.step (.add r)).2.result = .ok (.ref ref) →
      ∃ f, r.Yields f ∧ ∀ after : List Op,
        (.clear ∉ after →
          ∃ hidden, (t.run (.add r :: after)).store.resolve ref = some { f with hidden }) ∧
        (.clear ∈ after → (t.run (.add r :: after)).store.resolve ref = none) ∧
        ∀ r' ref', ((t.run (.add r :: after)).step (.add r')).2.result = .ok (.ref ref') →
          ref' ≠ ref) ∧
    (∀ (s : Filters) (n : Submission) (ref : Ref), (s.step (.add n)).2 = .ok (some ref) →
      ∃ f, n.Yields f ∧ ∀ after : List Filters.Op,
        (.clear ∉ after →
          ∃ hidden, (s.run (.add n :: after)).store.resolve ref = some { f with hidden }) ∧
        (.clear ∈ after → (s.run (.add n :: after)).store.resolve ref = none) ∧
        ∀ n' ref', ((s.run (.add n :: after)).step (.add n')).2 = .ok (some ref') →
          ref' ≠ ref) :=
  ⟨fun _ _ _ => run_reference, fun _ _ _ => Filters.run_reference⟩

theorem unusedVariable_reference :
    (({} : Tree).step (.add unusedVariable)).2.result = .ok (.ref ⟨"/src/a.cpp", 0, 0⟩) ∧
      ∃ f, unusedVariable.Yields f ∧
        (∃ hidden,
          (({} : Tree).run [.add unusedVariable, .showCategory (.real .style) false]).store.resolve
            ⟨"/src/a.cpp", 0, 0⟩ = some { f with hidden }) ∧
        (({} : Tree).run [.add unusedVariable, .clear, .add unusedVariable]).store.resolve
          ⟨"/src/a.cpp", 0, 0⟩ = none := by
  have h : (({} : Tree).step (.add unusedVariable)).2.result = .ok (.ref ⟨"/src/a.cpp", 0, 0⟩) :=
    rfl
  obtain ⟨f, hy, ha⟩ := reference_lifetime.1 {} unusedVariable _ h
  refine ⟨h, f, hy, ?_, ?_⟩
  · exact (ha [.showCategory (.real .style) false]).1 (by simp)
  · exact (ha [.clear, .add unusedVariable]).2.1 (by simp)

end Findings.Tree
