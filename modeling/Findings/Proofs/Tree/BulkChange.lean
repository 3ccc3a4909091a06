import Findings.Proofs.Tree.Visibility

/-!
# A bulk change and single changes

Showing or hiding several categories at once computes all flags anew; showing or hiding one reaches its
findings through the index. In a consistent tree the single changes too lead to what computing all flags
anew would give (`run_showCategory`), and as each category is named once their order makes no difference
(`Mask.setEach_perm`). So a bulk change is its single changes, one after another in any order
(`bulk_change_eq_single_changes`).
-/

namespace Findings

namespace Store

theorem recompute_recompute (s : Store) (m m' : Mask) :
    (s.recompute m).recompute m' = s.recompute m' := by
  have hgroup : ∀ g, recomputeGroup m' (recomputeGroup m g) = recomputeGroup m' g := by
    intro g
    simp [recomputeGroup, FileGroup.refresh, setHidden, Function.comp_def]
  simp [recompute, Function.comp_def, hgroup]

/-- Where the flags follow the mask there is nothing to compute. -/
theorem Follows.recompute_eq {s : Store} {m : Mask} (h : s.Follows m) : s.recompute m = s := by
  have hself : s.files.map (recomputeGroup m) = s.files := by
    conv_rhs => rw [← List.map_id s.files]
    exact List.map_congr_left fun g hg => (h g hg).recomputeGroup_eq
  rw [recompute, hself]

end Store

namespace Tree

/-- One category after another shown or hidden as the entries say. -/
def showEach (entries : List (Category × Bool)) : List Op :=
  entries.map fun e => .showCategory (.real e.1) e.2

/-- The tree under the mask `m`, with all flags computed from it. -/
def recomputed (t : Tree) (m : Mask) : Tree :=
  { t with view := { store := t.store.recompute m, mask := m } }

theorem recomputed_self {t : Tree} (h : t.view.Consistent) : t.recomputed t.mask = t := by
  have hstore : t.store.recompute t.mask = t.store := h.follows.recompute_eq
  rw [recomputed, hstore]
  rfl

theorem recomputed_recomputed (t : Tree) (m m' : Mask) :
    (t.recomputed m).recomputed m' = t.recomputed m' := by
  have hstore : (t.recomputed m).store.recompute m' = t.store.recompute m' :=
    t.store.recompute_recompute m m'
  rw [recomputed, hstore]
  rfl

theorem consistent_recomputed {t : Tree} (h : t.view.Consistent) (m : Mask) :
    (t.recomputed m).view.Consistent :=
  ⟨Store.wellFormed_of_content_eq (t.store.content_recompute m) h.wellFormed,
    Store.follows_recompute t.store m⟩

/-- After one category is shown or hidden, all flags are as if computed anew. -/
theorem step_showCategory {t : Tree} (h : t.view.Consistent) (c : Category) (shown : Bool) :
    (t.step (.showCategory (.real c) shown)).1 = t.recomputed (t.mask.set c shown) := by
  have hstore : t.store.showCategory c shown = t.store.recompute (t.mask.set c shown) :=
    h.follows.showCategory_eq_recompute h.wellFormed c shown
  rw [recomputed, ← hstore]
  rfl

theorem run_showCategory {t : Tree} (h : t.view.Consistent) (entries : List (Category × Bool)) :
    t.run (showEach entries) = t.recomputed (t.mask.setEach entries) := by
  induction entries generalizing t with
  | nil => exact (recomputed_self h).symm
  | cons e entries ih =>
    have hstep := step_showCategory h e.1 e.2
    calc t.run (showEach (e :: entries)) =
        (t.step (.showCategory (.real e.1) e.2)).1.run (showEach entries) := rfl
      _ = (t.recomputed (t.mask.set e.1 e.2)).run (showEach entries) := by rw [hstep]
      _ = (t.recomputed (t.mask.set e.1 e.2)).recomputed
          ((t.mask.set e.1 e.2).setEach entries) := ih (consistent_recomputed h _)
      _ = t.recomputed (t.mask.setEach (e :: entries)) := recomputed_recomputed _ _ _

theorem replies_showEach (t : Tree) (entries : List (Category × Bool)) :
    ∀ reply ∈ t.replies (showEach entries), reply.result = .ok .done := by
  induction entries generalizing t with
  | nil => exact fun _ h => absurd h List.not_mem_nil
  | cons e entries ih => exact List.forall_mem_cons.mpr ⟨rfl, ih _⟩

theorem showCategories_real (t : Tree) (entries : List (Category × Bool)) :
    t.showCategories (entries.map fun e => (.real e.1, e.2)) =
      .ok (t.recomputed (t.mask.setEach entries)) () := by
  have he : .sentinel ∉ (entries.map fun e => (CategoryCode.real e.1, e.2)).map (·.1) := by simp
  unfold showCategories Filtered.setMasks
  rw [Mask.setAll_eq, if_neg he, Mask.leading_real]
  rfl

/-- A new tree is consistent, whatever is shown or hidden at the start. -/
theorem new_consistent {policy : PathPolicy} {initial : List (CategoryCode × Bool)}
    {applications : Registry} {t : Tree} (h : Tree.new policy initial applications = .ok t) :
    t.view.Consistent := by
  unfold Tree.new at h
  cases hmask : Mask.ofEntries initial with
  | error e => simp [hmask, Except.map] at h
  | ok m =>
    simp only [hmask, Except.map, Except.ok.injEq] at h
    subst h
    exact Filtered.consistent_empty m

/-- In every state that a run reaches, showing or hiding several categories at once is showing or hiding
them one after another, in any order: the same tree comes out, and nothing fails. After single changes, in
whatever number, the mask has their entries, the store is the one before with all flags computed from that
mask, and computing them once more changes nothing. -/
theorem bulk_change_eq_single_changes {policy : PathPolicy} {initial : List (CategoryCode × Bool)}
    {applications : Registry} {start : Tree}
    (hstart : Tree.new policy initial applications = .ok start) {ops : List Op}
    (hops : ∀ op ∈ ops, op.Regular) {entries order : List (Category × Bool)}
    (hkeys : (entries.map (·.1)).Nodup) (horder : order.Perm entries) :
    let t := start.run ops
    let bulk := t.showCategories (entries.map fun e => (.real e.1, e.2))
    bulk.result = .ok () ∧
    (∀ reply ∈ t.replies (showEach order), reply.result = .ok .done) ∧
    bulk.state = t.run (showEach order) ∧
    ∀ sofar : List (Category × Bool),
      let v := (t.run (showEach sofar)).view
      v.mask = t.mask.setEach sofar ∧ v.store = t.store.recompute v.mask ∧ v.recompute = v := by
  intro t bulk
  have h : t.view.Consistent := run_consistent (new_consistent hstart) hops
  have hbulk : bulk = .ok (t.recomputed (t.mask.setEach entries)) () := showCategories_real t entries
  refine ⟨?_, replies_showEach t order, ?_, fun sofar => ?_⟩
  · rw [hbulk]
    rfl
  · rw [hbulk, run_showCategory h, Mask.setEach_perm horder.symm hkeys]
    rfl
  · have hc : (t.run (showEach sofar)).view.Consistent := by
      rw [run_showCategory h]
      exact consistent_recomputed h _
    intro v
    have hv : v = (t.recomputed (t.mask.setEach sofar)).view :=
      congrArg Tree.view (run_showCategory h sofar)
    have hstore : v.store.recompute v.mask = v.store := hc.follows.recompute_eq
    refine ⟨?_, ?_, ?_⟩
    · rw [hv]
      rfl
    · rw [hv]
      rfl
    · rw [Filtered.recompute, hstore]

/-- Two of the categories of a run are hidden and shown, the later entry first. -/
theorem mixedRun_bulk_change :
    ∃ start, Tree.new {} [(.real .warning, false)] {} = .ok start ∧
      (∀ op ∈ mixedRun, op.Regular) ∧
      ([(Category.error, true), (Category.style, false)].map (·.1)).Nodup ∧
      [(Category.style, false), (Category.error, true)].Perm
        [(Category.error, true), (Category.style, false)] ∧
      ((start.run mixedRun).showCategories
        ([(Category.error, true), (Category.style, false)].map fun e => (.real e.1, e.2))).state =
        (start.run mixedRun).run (showEach [(.style, false), (.error, true)]) := by
  have hstart := new_real {} [(.warning, false)] {}
  have hops : ∀ op ∈ mixedRun, op.Regular := by simp [mixedRun, Op.Regular]
  have hkeys : ([(Category.error, true), (Category.style, false)].map (·.1)).Nodup := by decide
  have horder : [(Category.style, false), (Category.error, true)].Perm
      [(Category.error, true), (Category.style, false)] := .swap _ _ _
  exact ⟨_, hstart, hops, hkeys, horder,
    (bulk_change_eq_single_changes hstart hops hkeys horder).2.2.1⟩

end Tree
end Findings
