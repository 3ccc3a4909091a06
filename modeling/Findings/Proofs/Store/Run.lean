import Findings.Proofs.Store.References

/-!
# Runs of a store with filters

One store and the masks of any number of filters over it. Findings are added with their flags as given;
each filter changes its own mask and the flags of the store they share. A call on a filter that does not
exist does nothing. Whatever is done, references keep to `Store.Later` (`run_later`).

What a run has taken in since its last clearing is listed twice: all additions that came as far as their file
(`begunAlong`), and those that were accepted, with their references (`givenAlong`).
-/

namespace Findings

/-- A store and the masks of the filters over it. -/
structure Filters where
  store : Store := {}
  masks : List Mask := []
deriving Repr

namespace Filters

inductive Op where
  | add (n : Submission)
  | clear
  /-- A new filter over the store. -/
  | filter (entries : List (CategoryCode × Bool))
  | setMask (i : Nat) (code : CategoryCode) (shown : Bool)
  | setMasks (i : Nat) (entries : List (CategoryCode × Bool))
  | apply (i : Nat) (r : Ref)
  | recompute (i : Nat)

/-- What a filter does to its mask and the store. -/
def through (s : Filters) (i : Nat) (act : Filtered → Outcome Filtered Unit) :
    Filters × Except Error (Option Ref) :=
  match s.masks[i]? with
  | none => (s, .ok none)
  | some mask =>
    let o := act ⟨s.store, mask⟩
    (⟨o.state.store, s.masks.set i o.state.mask⟩, o.result.map fun _ => none)

/-- The state after an operation, and the reference that it gave out or its error. -/
def step (s : Filters) : Op → Filters × Except Error (Option Ref)
  | .add n => ({ s with store := (s.store.add n).1 }, (s.store.add n).2.map some)
  | .clear => ({ s with store := s.store.clear }, .ok none)
  | .filter entries =>
    match Mask.ofEntries entries with
    | .ok mask => ({ s with masks := s.masks ++ [mask] }, .ok none)
    | .error e => (s, .error e)
  | .setMask i code shown => s.through i (·.setMask code shown)
  | .setMasks i entries => s.through i (·.setMasks entries)
  | .apply i r => s.through i fun v => .ok (v.apply r) ()
  | .recompute i => s.through i fun v => .ok v.recompute ()

/-- The state after a run. -/
def run (s : Filters) : List Op → Filters
  | [] => s
  | op :: ops => run (s.step op).1 ops

/-! ## What was asked for and what was given out -/

/-- The additions begun after an operation: all but those of the sentinel, which are refused beforehand. -/
def noteBegun (begun : List Submission) : Op → List Submission
  | .add n => if n.category = .sentinel then begun else begun ++ [n]
  | .clear => []
  | _ => begun

/-- The additions of a run since its last clearing, on top of those before it, but for those of the sentinel:
they are accepted, or break off in their backtraces. -/
def begunAlong (begun : List Submission) (ops : List Op) : List Submission := ops.foldl noteBegun begun

/-- The accepted additions after an operation, each with the reference it was answered with. -/
def noteGiven (s : Filters) (given : List (Submission × Ref)) (op : Op) : List (Submission × Ref) :=
  match op, (s.step op).2 with
  | .add n, .ok (some ref) => given ++ [(n, ref)]
  | .clear, _ => []
  | _, _ => given

/-- The additions accepted in a run since its last clearing, on top of those noted before it, each with the
reference it was answered with. -/
def givenAlong (s : Filters) (given : List (Submission × Ref)) : List Op → List (Submission × Ref)
  | [] => given
  | op :: ops => givenAlong (s.step op).1 (s.noteGiven given op) ops

/-! ## Steps -/

theorem content_through (s : Filters) (i : Nat) {a : Filtered → Outcome Filtered Unit}
    (h : ∀ v, (a v).state.store.content = v.store.content) :
    (s.through i a).1.store.content = s.store.content := by
  unfold through
  cases s.masks[i]? with
  | none => rfl
  | some mask => exact h ⟨s.store, mask⟩

/-- Only additions and clearings change more than flags. -/
theorem content_step (s : Filters) {op : Op} (hadd : ∀ n, op ≠ .add n) (hclear : op ≠ .clear) :
    (s.step op).1.store.content = s.store.content := by
  cases op with
  | add n => exact absurd rfl (hadd n)
  | clear => exact absurd rfl hclear
  | filter entries =>
    simp only [step]
    split <;> rfl
  | setMask i code shown => exact s.content_through i fun v => v.content_setMask code shown
  | setMasks i entries => exact s.content_through i fun v => v.content_setMasks entries
  | apply i r =>
    exact s.content_through i (a := fun v => .ok (v.apply r) ()) fun v => v.store.content_applyMask v.mask r
  | recompute i =>
    exact s.content_through i (a := fun v => .ok v.recompute ()) fun v => v.store.content_recompute v.mask

theorem step_later (s : Filters) (op : Op) : s.store.Later (s.step op).1.store (.clear = op) := by
  match op with
  | .add n =>
    rcases s.store.add_cases n with ⟨-, h⟩ | ⟨e, -, h⟩ | ⟨f, -, h⟩ <;> simp only [step, h]
    · exact .of_content_eq rfl (by simp)
    · exact Store.later_reserve _ _ (by simp)
    · exact Store.later_insert _ _ (by simp)
  | .clear => exact Store.later_clear _ rfl
  | .filter _ | .setMask .. | .setMasks .. | .apply .. | .recompute _ =>
    exact .of_content_eq (s.content_step (by simp) (by simp)) (by simp)

theorem step_add_ref {s : Filters} {n : Submission} {ref : Ref}
    (h : (s.step (.add n)).2 = .ok (some ref)) :
    ∃ f, n.Yields f ∧ ref = s.store.nextRef f.file ∧ (s.step (.add n)).1.store = s.store.insert f := by
  rcases s.store.add_cases n with ⟨-, hadd⟩ | ⟨e, -, hadd⟩ | ⟨f, hf, hadd⟩ <;>
    simp only [step, hadd] at h ⊢ <;> cases h
  exact ⟨f, hf, rfl, rfl⟩

/-! ## References along a run -/

theorem run_later (s : Filters) (ops : List Op) : s.store.Later (s.run ops).store (.clear ∈ ops) := by
  induction ops generalizing s with
  | nil => exact .of_content_eq rfl (by simp)
  | cons op ops ih =>
    rw [List.mem_cons]
    exact (s.step_later op).trans (ih _)

/-- The life of a reference given out to a store with filters over it: it resolves to what was handed in. -/
theorem run_reference {s : Filters} {n : Submission} {ref : Ref}
    (h : (s.step (.add n)).2 = .ok (some ref)) :
    ∃ f, n.Yields f ∧ ∀ after : List Op,
      (.clear ∉ after → ∃ hidden, (s.run (.add n :: after)).store.resolve ref = some { f with hidden }) ∧
      (.clear ∈ after → (s.run (.add n :: after)).store.resolve ref = none) ∧
      ∀ n' ref', ((s.run (.add n :: after)).step (.add n')).2 = .ok (some ref') → ref' ≠ ref := by
  obtain ⟨f, hf, rfl, hs⟩ := step_add_ref h
  refine ⟨f, hf, fun after => ?_⟩
  have hl : (s.store.insert f).Later (s.run (.add n :: after)).store (.clear ∈ after) := by
    rw [← hs]
    exact run_later _ after
  refine ⟨hl.resolve_nextRef, hl.resolve_eq_none, fun n' ref' h' => ?_⟩
  obtain ⟨f', -, rfl, -⟩ := step_add_ref h'
  exact hl.nextRef_ne _

end Filters
end Findings
