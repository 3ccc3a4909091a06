import Findings.Proofs.Store.Generations
import Findings.Proofs.Tree.References
import Findings.Proofs.Tree.Visibility

/-!
# Clearing is a fresh start

A cleared tree is a new one with the policy, the mask and the applications of the old, some generations later
(`clear_eq_shift`). A step of a tree some generations later is the same step, with all references in what is
asked for and in what is given out that many generations later (`step_shift`), and so is a run (`run_shift`,
`replies_shift`). No reference that was given out before is of a generation that comes after
(`generation_le_of_given`). What this means for the use of a tree after clearing is `clear_fresh_start`.
-/

namespace Findings

theorem Ref.shift_surjective (d : Nat) : Function.Surjective (Ref.shift d) := by
  intro r
  refine ⟨{ r with generation := r.generation - d }, ?_⟩
  simp [Ref.shift]

namespace Mask

/-- A mask is what its entries say. -/
theorem setEach_entries (m m' : Mask) : m'.setEach m.entries = m := by
  have hkeys : (m.entries.map (·.1)).Nodup := by
    have hall : m.entries.map (·.1) = Category.all := rfl
    rw [hall]
    decide
  apply ext_shows
  intro c
  have hentry : (c, m.shows c) ∈ m.entries :=
    List.mem_map_of_mem (by cases c <;> decide : c ∈ Category.all)
  exact shows_setEach hkeys hentry m'

end Mask

namespace Filtered

/-- The same store and mask, `d` generations later. -/
def shift (d : Nat) (v : Filtered) : Filtered := { v with store := v.store.shift d }

theorem add_shift (d : Nat) (v : Filtered) (n : Submission) :
    (v.shift d).add n = ⟨(v.add n).state.shift d, (v.add n).result.map (Ref.shift d), (v.add n).log⟩ := by
  cases hc : n.category with
  | sentinel =>
    simp only [add, Store.add, hc]
    rfl
  | real c =>
    cases hbacktrace : n.backtrace with
    | error e =>
      simp only [add, Store.add, hc, hbacktrace, shift, Store.reserve_shift]
      rfl
    | ok backtrace =>
      have href := Store.nextRef_shift d v.store (n.finding c backtrace).file
      simp only [add, Store.add_eq_insert _ hc hbacktrace, shift, href, Store.insert_shift]
      rfl

theorem apply_shift (d : Nat) (v : Filtered) (r : Ref) :
    (v.shift d).apply (r.shift d) = (v.apply r).shift d :=
  congrArg (fun store => { v with store }) (Store.applyMask_shift d v.store v.mask r)

theorem clear_shift (d : Nat) (v : Filtered) : (v.shift d).clear = v.clear.shift d :=
  congrArg (fun store => { v with store }) (Store.clear_shift d v.store)

theorem setMask_shift (d : Nat) (v : Filtered) (code : CategoryCode) (shown : Bool) :
    (v.shift d).setMask code shown =
      ⟨(v.setMask code shown).state.shift d, (v.setMask code shown).result,
        (v.setMask code shown).log⟩ := by
  cases code with
  | sentinel => rfl
  | real c =>
    have hstore := Store.showCategory_shift d v.store c shown
    simp only [setMask, shift, hstore]
    rfl

theorem setMasks_shift (d : Nat) (v : Filtered) (entries : List (CategoryCode × Bool)) :
    (v.shift d).setMasks entries =
      ⟨(v.setMasks entries).state.shift d, (v.setMasks entries).result, (v.setMasks entries).log⟩ := by
  unfold setMasks
  simp only [shift]
  split <;> rfl

end Filtered

namespace Tree

/-! ## Some generations later -/

/-- The same tree, `d` generations later. -/
def shift (d : Nat) (t : Tree) : Tree := { t with view := t.view.shift d }

def Op.shift (d : Nat) : Op → Op
  | .resolve r => .resolve (r.shift d)
  | .target r => .target (r.shift d)
  | .openFinding r selector => .openFinding (r.shift d) selector
  | op => op

def FindingRow.shift (d : Nat) (r : FindingRow) : FindingRow := { r with ref := r.ref.shift d }

def FileRow.shift (d : Nat) (r : FileRow) : FileRow :=
  { r with findings := r.findings.map (FindingRow.shift d) }

def Answer.shift (d : Nat) : Answer → Answer
  | .ref r => .ref (r.shift d)
  | .rows rs => .rows (rs.map (FileRow.shift d))
  | a => a

/-- The same answer or error, log and calls, with references `d` generations later. -/
def Reply.shift (d : Nat) (r : Reply) : Reply := { r with result := r.result.map (Answer.shift d) }

/-- Each operation is one with references of some generations ago. -/
theorem Op.shift_surjective (d : Nat) : Function.Surjective (Op.shift d) := by
  intro op
  cases h : op with
  | resolve r =>
    obtain ⟨r', rfl⟩ := Ref.shift_surjective d r
    exact ⟨.resolve r', rfl⟩
  | target r =>
    obtain ⟨r', rfl⟩ := Ref.shift_surjective d r
    exact ⟨.target r', rfl⟩
  | openFinding r selector =>
    obtain ⟨r', rfl⟩ := Ref.shift_surjective d r
    exact ⟨.openFinding r' selector, rfl⟩
  | _ =>
    -- Without references in it, the operation is its own.
    refine ⟨op, ?_⟩
    rw [h]
    rfl

section Steps

variable (d : Nat) (t : Tree)

theorem add_shift (r : Report) :
    (t.shift d).add r = ⟨(t.add r).state.shift d, (t.add r).result.map (Ref.shift d), (t.add r).log⟩ := by
  have hview : (t.shift d).view = t.view.shift d := rfl
  unfold add
  rw [hview]
  cases classify r.severity with
  | error e => rfl
  | ok c =>
    cases hn : submission r c.1 with
    | error e =>
      simp only [hn]
      rfl
    | ok n =>
      cases hadd : t.view.add n with
      | mk view result log =>
        cases result with
        | error e =>
          simp only [hn, Filtered.add_shift, hadd]
          rfl
        | ok ref =>
          simp only [hn, Filtered.add_shift, hadd, Except.map, Filtered.apply_shift]
          rfl

theorem fileRow_shift (includeHidden : Bool) (g : FileGroup) :
    (t.shift d).fileRow includeHidden g = (t.fileRow includeHidden g).shift d := by
  simp only [fileRow, FileRow.shift, List.map_map]
  congr 1

theorem rows_shift (includeHidden : Bool) :
    (t.shift d).rows includeHidden = (t.rows includeHidden).map (FileRow.shift d) := by
  rw [rows, rows, List.map_map]
  exact List.map_congr_left fun g _ => fileRow_shift d t includeHidden g

theorem openFinding_shift (r : Ref) (selector : Option Selector) :
    (t.shift d).openFinding (r.shift d) selector = t.openFinding r selector := by
  have hresolve : (t.shift d).store.resolve (r.shift d) = t.store.resolve r :=
    Store.resolve_shift d t.store r
  unfold openFinding
  rw [hresolve]
  rfl

theorem step_shift (op : Op) :
    (t.shift d).step (op.shift d) = ((t.step op).1.shift d, (t.step op).2.shift d) := by
  have hresolve : ∀ r, (t.shift d).store.resolve (r.shift d) = t.store.resolve r :=
    Store.resolve_shift d t.store
  cases op with
  | add r =>
    simp only [Op.shift, step, add_shift, Reply.shift]
    cases (t.add r).result <;> rfl
  | showCategory code shown =>
    have hview : (t.shift d).view = t.view.shift d := rfl
    simp only [Op.shift, step, showCategory, hview, Filtered.setMask_shift, Reply.shift]
    cases (t.view.setMask code shown).result <;> rfl
  | showCategories entries =>
    have hview : (t.shift d).view = t.view.shift d := rfl
    simp only [Op.shift, step, showCategories, hview, Filtered.setMasks_shift, Reply.shift]
    cases (t.view.setMasks entries).result <;> rfl
  | clear =>
    have hview : (t.shift d).view.clear = t.view.clear.shift d := Filtered.clear_shift d t.view
    simp only [Op.shift, step, clear, Outcome.ok, hview]
    rfl
  | rows includeHidden =>
    simp only [Op.shift, step, rows_shift]
    rfl
  | exported format =>
    have hexported : (t.shift d).exported format = t.exported format := rfl
    simp only [Op.shift, step, hexported, Reply.shift]
    cases t.exported format <;> rfl
  | save sink format =>
    have hsave : (t.shift d).save sink format = t.save sink format := rfl
    simp only [Op.shift, step, hsave, Reply.shift]
    cases (t.save sink format).result <;> rfl
  | resolve r =>
    simp only [Op.shift, step, hresolve]
    rfl
  | target r =>
    simp only [Op.shift, step, hresolve]
    rfl
  | openFinding r selector =>
    simp only [Op.shift, step, openFinding_shift, Reply.shift]
    cases (t.openFinding r selector).result <;> rfl
  | _ => rfl

theorem run_shift (ops : List Op) :
    (t.shift d).run (ops.map (Op.shift d)) = (t.run ops).shift d := by
  induction ops generalizing t with
  | nil => rfl
  | cons op ops ih => rw [List.map_cons, run, step_shift, ih, run]

theorem replies_shift (ops : List Op) :
    (t.shift d).replies (ops.map (Op.shift d)) = (t.replies ops).map (Reply.shift d) := by
  induction ops generalizing t with
  | nil => rfl
  | cons op ops ih => rw [List.map_cons, replies, step_shift, ih, replies, List.map_cons]

end Steps

/-! ## References given out before -/

/-- The references that an answer gives out. -/
def Answer.refs : Answer → List Ref
  | .ref r => [r]
  | .rows rs => rs.flatMap fun row => row.findings.map (·.ref)
  | _ => []

def Reply.refs (r : Reply) : List Ref :=
  match r.result with
  | .ok a => a.refs
  | .error _ => []

/-- What a step gives out is of the generation at the time. -/
theorem generation_of_step {t : Tree} {op : Op} {ref : Ref} (h : ref ∈ (t.step op).2.refs) :
    ref.generation = t.store.generation := by
  cases op with
  | add r =>
    rcases add_cases t r with ⟨e, log, ha⟩ | ⟨f, log, -, ha⟩
    · simp [step, ha, Reply.refs, Outcome.error, Except.map] at h
    · have hnext : ref = t.store.nextRef f.file := by
        simpa [step, ha, Reply.refs, Outcome.ok, Except.map, Answer.refs] using h
      rw [hnext]
      rfl
  | rows includeHidden =>
    obtain ⟨row, hrow, href⟩ := List.mem_flatMap.mp h
    obtain ⟨g, -, rfl⟩ := List.mem_map.mp hrow
    obtain ⟨finding, hfinding, rfl⟩ := List.mem_map.mp href
    obtain ⟨p, -, rfl⟩ := List.mem_map.mp hfinding
    rfl
  | showCategory code shown =>
    cases code <;> exact absurd h List.not_mem_nil
  | showCategories entries =>
    simp only [step, Reply.refs] at h
    cases hshown : (t.showCategories entries).result <;> simp [hshown, Except.map, Answer.refs] at h
  | exported format =>
    simp only [step, Reply.refs] at h
    cases hexported : t.exported format <;> simp [hexported, Except.map, Answer.refs] at h
  | save sink format =>
    simp only [step, Reply.refs] at h
    cases hsaved : (t.save sink format).result <;> simp [hsaved, Except.map, Answer.refs] at h
  | openFinding r selector =>
    simp only [step, Reply.refs] at h
    cases hopened : (t.openFinding r selector).result <;> simp [hopened, Except.map, Answer.refs] at h
  | _ => exact absurd h List.not_mem_nil

theorem generation_le_of_given {t : Tree} {ops : List Op} {reply : Reply} (hreply : reply ∈ t.replies ops)
    {ref : Ref} (href : ref ∈ reply.refs) : ref.generation ≤ (t.run ops).store.generation := by
  induction ops generalizing t with
  | nil => exact absurd hreply List.not_mem_nil
  | cons op ops ih =>
    rcases List.mem_cons.mp hreply with rfl | hreply
    · rw [generation_of_step href]
      exact Int.ofNat_le.mpr (run_later t (op :: ops)).generation_le
    · exact ih hreply

/-! ## Clearing -/

theorem clear_eq_shift (t : Tree) :
    t.clear.state =
      ({ view := { mask := t.mask }, policy := t.policy, applications := t.applications } : Tree).shift
        (t.store.generation + 1) := by
  have hgeneration : 0 + (t.store.generation + 1) = t.store.generation + 1 := Nat.zero_add _
  simp only [shift, Filtered.shift, Store.shift, hgeneration]
  rfl

/-- Clearing is as good as a new tree. In every state that a run reaches, what is done with the tree after
clearing it goes step by step as it does with a new tree that has its policy, its mask and its applications:
the replies are the same, and after each step the trees are, with all references the same number of
generations later. Every run is one with references of that many generations ago. And no reference that was
given out before the clearing resolves at any time after it. -/
theorem clear_fresh_start (start : Tree) (before : List Op) :
    let t := start.run before
    let d := t.store.generation + 1
    (∃ fresh, Tree.new t.policy (t.mask.entries.map fun e => (.real e.1, e.2)) t.applications =
        .ok fresh ∧
      ∀ ops,
        t.run (.clear :: ops.map (Op.shift d)) = (fresh.run ops).shift d ∧
        t.replies (.clear :: ops.map (Op.shift d)) =
          { result := .ok .done, log := [.cleared] } :: (fresh.replies ops).map (Reply.shift d)) ∧
    (∀ later : List Op, ∃ ops : List Op, ops.map (Op.shift d) = later) ∧
    ∀ reply ∈ start.replies before, ∀ ref ∈ reply.refs, ∀ later,
      (t.run (.clear :: later)).store.resolve ref = none := by
  intro t d
  refine ⟨⟨_, new_real t.policy t.mask.entries t.applications, fun ops => ⟨?_, ?_⟩⟩, ?_, ?_⟩
  · rw [Mask.setEach_entries, ← run_shift, ← clear_eq_shift]
    rfl
  · rw [Mask.setEach_entries, ← replies_shift, ← clear_eq_shift]
    rfl
  · exact List.map_surjective_iff.mpr (Op.shift_surjective d)
  · intro reply hreply ref href later
    have hbefore : ref.generation ≤ t.store.generation := generation_le_of_given hreply href
    have hafter : t.store.generation + 1 ≤ (t.run (.clear :: later)).store.generation :=
      (run_later t.clear.state later).generation_le
    apply Store.resolve_eq_none
    omega

/-- A reference given out before clearing; after it the slot is filled anew, in the next generation. -/
theorem unusedVariable_fresh_start :
    let ref : Ref := ⟨"/src/a.cpp", 0, 0⟩
    let first : Reply := { result := .ok (.ref ref) }
    first ∈ ({} : Tree).replies [.add unusedVariable] ∧ ref ∈ first.refs ∧
      (({} : Tree).run [.add unusedVariable, .clear, .add unusedVariable]).store.resolve ref = none ∧
      (({} : Tree).run [.add unusedVariable]).replies [.clear, .add unusedVariable, .resolve (ref.shift 1)] =
        { result := .ok .done, log := [.cleared] } ::
          (({} : Tree).replies [.add unusedVariable, .resolve ref]).map (Reply.shift 1) := by
  intro ref first
  obtain ⟨⟨fresh, hfresh, hruns⟩, -, hgiven⟩ := clear_fresh_start {} [.add unusedVariable]
  obtain rfl : ({} : Tree) = fresh := Except.ok.inj hfresh
  have hfirst : first ∈ ({} : Tree).replies [.add unusedVariable] := List.mem_singleton.mpr rfl
  have href : ref ∈ first.refs := List.mem_singleton.mpr rfl
  exact ⟨hfirst, href, hgiven first hfirst ref href [.add unusedVariable],
    (hruns [.add unusedVariable, .resolve ref]).2⟩

end Tree
end Findings
