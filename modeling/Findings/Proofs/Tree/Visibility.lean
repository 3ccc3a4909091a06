import Findings.Proofs.Store.Visibility
import Findings.Proofs.Tree.Steps

/-!
# Visibility along every run

`Filtered.Consistent`: the store is well formed and its flags follow the mask. A new tree is consistent
(`consistent_empty`), every step keeps it so (`ViewStep.consistent`), provided that a bulk change names
real categories only, and with it every run does (`run_consistent`). What this means for the flags is
`run_visibility`.
-/

namespace Findings

/-- The store is well formed, and its flags are what the mask says. -/
structure Filtered.Consistent (s : Filtered) : Prop where
  wellFormed : s.store.WellFormed
  follows : s.store.Follows s.mask

namespace Filtered

theorem consistent_empty (m : Mask) : ({ mask := m } : Filtered).Consistent :=
  ⟨Store.wellFormed_empty 0, Store.follows_empty 0 m⟩

theorem Consistent.clear {s : Filtered} (_ : s.Consistent) : s.clear.Consistent :=
  ⟨Store.wellFormed_empty _, Store.follows_empty _ _⟩

theorem Consistent.setMask {s : Filtered} (h : s.Consistent) (code : CategoryCode) (shown : Bool) :
    (s.setMask code shown).state.Consistent := by
  cases code with
  | sentinel => exact h
  | real c =>
    constructor
    · exact Store.wellFormed_of_content_eq (s.store.content_showCategory c shown) h.wellFormed
    · change (s.store.showCategory c shown).Follows (s.mask.set c shown)
      rw [h.follows.showCategory_eq_recompute h.wellFormed]
      exact Store.follows_recompute _ _

theorem setMasks_real (s : Filtered) {entries : List (CategoryCode × Bool)}
    (he : .sentinel ∉ entries.map (·.1)) :
    (s.setMasks entries).state =
      { store := s.store.recompute (s.mask.setEach (Mask.leading entries))
        mask := s.mask.setEach (Mask.leading entries) } := by
  unfold setMasks
  rw [Mask.setAll_eq, if_neg he]
  rfl

theorem Consistent.setMasks {s : Filtered} (h : s.Consistent) {entries : List (CategoryCode × Bool)}
    (he : .sentinel ∉ entries.map (·.1)) : (s.setMasks entries).state.Consistent := by
  rw [setMasks_real s he]
  exact ⟨Store.wellFormed_of_content_eq (s.store.content_recompute _) h.wellFormed,
    Store.follows_recompute _ _⟩

end Filtered

namespace Tree

theorem file_consistent {s : Filtered} (h : s.Consistent) (f : Finding) :
    (file s f).Consistent := by
  have he := h.follows.applyMask_insert h.wellFormed f
  constructor
  · exact Store.wellFormed_of_content_eq (Store.content_applyMask _ _ _) (h.wellFormed.insert f)
  · change ((s.store.insert f).applyMask s.mask (s.store.nextRef f.file)).Follows s.mask
    rw [he]
    exact Store.follows_recompute _ _

/-- A bulk change names real categories only; all other operations may name the sentinel. -/
def Op.Regular : Op → Prop
  | .showCategories entries => .sentinel ∉ entries.map (·.1)
  | _ => True

theorem ViewStep.consistent {v v' : Filtered} {op : Op} (hs : ViewStep v op v')
    (h : v.Consistent) (hop : op.Regular) : v'.Consistent := by
  cases hs with
  | same _ _ => exact h
  | filed _ => exact file_consistent h _
  | cleared => exact h.clear
  | category code shown => exact h.setMask code shown
  | categories entries => exact h.setMasks hop

theorem run_consistent {t : Tree} {ops : List Op} (h : t.view.Consistent)
    (hops : ∀ op ∈ ops, op.Regular) : (t.run ops).view.Consistent := by
  induction ops generalizing t with
  | nil => exact h
  | cons op ops ih =>
    exact ih ((view_step t op).consistent h (hops op List.mem_cons_self))
      fun op' hop' => hops op' (List.mem_cons_of_mem _ hop')

/-- Categories shown or hidden at the start always make a tree, with an empty store. -/
theorem new_real (policy : PathPolicy) (initial : List (Category × Bool))
    (applications : Registry) :
    Tree.new policy (initial.map fun e => (.real e.1, e.2)) applications =
      .ok { view := { mask := ({} : Mask).setEach initial }, policy, applications } := by
  have he : .sentinel ∉ (initial.map fun e => (CategoryCode.real e.1, e.2)).map (·.1) := by simp
  unfold Tree.new Mask.ofEntries
  rw [Mask.setAll_eq, if_neg he, Mask.leading_real]
  rfl

/-- After every run of a new tree the mask covers the six categories, each finding is hidden just when
its category is masked out, and each file is hidden just when none of its findings is shown. -/
theorem run_visibility (policy : PathPolicy) (initial : List (Category × Bool))
    (applications : Registry) (ops : List Op) (hops : ∀ op ∈ ops, op.Regular) :
    ∃ t, Tree.new policy (initial.map fun e => (.real e.1, e.2)) applications = .ok t ∧
      (t.run ops).mask.entries.map (·.1) = Category.all ∧
      ∀ g ∈ (t.run ops).store.files,
        (∀ f ∈ g.findings, f.hidden = !(t.run ops).mask.shows f.category) ∧
        (g.hidden = true ↔ ¬ ∃ f ∈ g.findings, f.hidden = false) := by
  refine ⟨_, new_real policy initial applications, rfl, fun g hg => ?_⟩
  have hc : Filtered.Consistent _ :=
    run_consistent (t := ⟨{ mask := ({} : Mask).setEach initial }, policy, applications⟩)
      (Filtered.consistent_empty _) hops
  obtain ⟨hf, hh⟩ := hc.follows g hg
  refine ⟨hf, ?_⟩
  rw [hh]
  simp

/-- A run in which one call is refused and a category is hidden before and after its findings come. -/
def mixedRun : List Op :=
  [.add { file := .text "/a.c", severity := .text "style", message := .text "unused" },
   .showCategory (.real .style) false, .showCategory .sentinel true,
   .add { file := .text "/a.c", severity := .text "error", message := .text "null" },
   .showCategories [(.real .error, false), (.real .style, true)],
   .add { file := .text "/b.c", severity := .text "warning", message := .text "shadow" }]

theorem mixedRun_visibility :
    (∀ op ∈ mixedRun, op.Regular) ∧
    ∃ t, Tree.new {} [(.real .warning, false)] {} = .ok t ∧
      (t.run mixedRun).mask.entries.map (·.1) = Category.all ∧
      ∀ g ∈ (t.run mixedRun).store.files,
        (∀ f ∈ g.findings, f.hidden = !(t.run mixedRun).mask.shows f.category) ∧
        (g.hidden = true ↔ ¬ ∃ f ∈ g.findings, f.hidden = false) := by
  have hops : ∀ op ∈ mixedRun, op.Regular := by simp [mixedRun, Op.Regular]
  exact ⟨hops, run_visibility {} [(.warning, false)] {} mixedRun hops⟩

end Tree
end Findings
