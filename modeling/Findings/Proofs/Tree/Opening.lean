import Findings.Proofs.Registry
import Findings.Proofs.Store.Traversal
import Findings.Proofs.Tree.Stored

/-!
# Opening a finding

The applications of a tree are those that were registered with it, before the run and on it (`run_applications`),
so which one a selector picks depends on these registrations alone (`Registry.pick_ofList_iff`). Opening looks
for the finding first and for the application second, and only when both are there calls something: that one
application, once, with the target of the finding. It changes nothing in the tree. In every state of a tree this is `openFinding_once`;
a number in a reference or a selector that is too long to be written out is not told of by its own error.
-/

namespace Findings

namespace Registry

/-- What a selector picks after registrations: the application registered last under the name, under the name
at the position in the menu, or, if nothing is selected, under the first name of the menu. -/
def Picks (as : List Application) : Option Selector → Application → Prop
  | none, a => ∃ name, (as.map (·.name)).head? = some name ∧ latest? as name = some a
  | some (.name name), a => latest? as name = some a
  | some (.position i), a => ∃ (k : Nat) (name : Text),
      i = k ∧ (as.map (·.name)).eraseDups[k]? = some name ∧ latest? as name = some a

/-- Why a selector picks nothing from a menu; where nothing is selected, because nothing is first in it. -/
def missing (menu : List Text) : Option Selector → Error
  | none => .noApplicationAt 0 menu.length
  | some (.name name) => .unknownApplication name menu
  | some (.position i) => if Legible i then .noApplicationAt i menu.length else .integerTooLong

variable {as : List Application}

theorem pick_ofList_position_iff {i : Int} {a : Application} :
    (ofList as).pick (.position i) = .ok a ↔ Picks as (some (.position i)) a := by
  simp only [Picks, ← names_ofList, ← get?_ofList]
  constructor
  · intro h
    by_cases hi : i < 0 ∨ (ofList as).names.length ≤ i
    · rw [pick_outside hi] at h
      cases h
    · have hlt : i.toNat < (ofList as).names.length := by omega
      have hname := List.getElem?_eq_getElem hlt
      have hpos : 0 ≤ i := by omega
      obtain ⟨b, hb, hpick⟩ := pick_position (nodup_names_ofList as) hname
      rw [Int.toNat_of_nonneg hpos, h] at hpick
      obtain rfl := Except.ok.inj hpick
      exact ⟨i.toNat, _, (Int.toNat_of_nonneg hpos).symm, hname, hb⟩
  · rintro ⟨k, name, rfl, hname, ha⟩
    obtain ⟨b, hb, hpick⟩ := pick_position (nodup_names_ofList as) hname
    rw [ha] at hb
    obtain rfl := Option.some.inj hb
    exact hpick

/-- The first name of the menu is the one registered first. -/
theorem picks_none_iff {a : Application} : Picks as none a ↔ Picks as (some (.position 0)) a := by
  have hfirst : (as.map (·.name)).eraseDups[0]? = (as.map (·.name)).head? := by
    cases as with
    | nil => rfl
    | cons b as => rw [List.map_cons, List.eraseDups_cons, List.getElem?_cons_zero, List.head?_cons]
  constructor
  · rintro ⟨name, hname, ha⟩
    exact ⟨0, name, rfl, hfirst.trans hname, ha⟩
  · rintro ⟨k, name, hk, hname, ha⟩
    obtain rfl : k = 0 := by omega
    exact ⟨name, hfirst.symm.trans hname, ha⟩

/-- A selector picks from the menu what the registrations say, and nothing else. -/
theorem pick_ofList_iff {selector : Option Selector} {a : Application} :
    (ofList as).pick (selector.getD (.position 0)) = .ok a ↔ Picks as selector a := by
  cases selector with
  | none => exact pick_ofList_position_iff.trans picks_none_iff.symm
  | some selector =>
    cases selector with
    | name name =>
      rw [Option.getD_some, pick_name, get?_ofList, Picks]
      cases latest? as name <;> simp
    | position i => exact pick_ofList_position_iff

theorem pick_error {r : Registry} {selector : Option Selector} {e : Error}
    (h : r.pick (selector.getD (.position 0)) = .error e) : e = missing r.names selector := by
  have hposition : ∀ {i : Int}, r.pick (.position i) = .error e →
      e = if Legible i then .noApplicationAt i r.names.length else .integerTooLong := by
    intro i h
    rw [pick] at h
    split at h
    · cases h
    · rw [names, List.length_map]
      exact (Except.error.inj h).symm
  cases selector with
  | none =>
    rw [hposition h, if_pos (by decide)]
    rfl
  | some selector =>
    cases selector with
    | position i => exact hposition h
    | name name =>
      rw [Option.getD_some, pick_name] at h
      cases hget : r.get? name with
      | none =>
        rw [hget] at h
        exact (Except.error.inj h).symm
      | some a =>
        rw [hget] at h
        cases h

end Registry

namespace Store

/-- The finding stands at the place of the reference, in the store of its generation. -/
def Holds (s : Store) (r : Ref) (f : Finding) : Prop :=
  ∃ g ∈ s.files, ∃ i : Nat, r = s.refTo g i ∧ g.findings[i]? = some f

theorem WellFormed.holds_iff {s : Store} (h : s.WellFormed) {r : Ref} {f : Finding} :
    s.Holds r f ↔ s.resolve r = some f := by
  constructor
  · rintro ⟨g, hg, i, rfl, hf⟩
    rw [h.resolve_refTo hg, hf]
  · intro hf
    have hmem : r ∈ s.refs := (h.mem_refs_iff r).mpr (by rw [hf]; rfl)
    obtain ⟨g, hg, hr⟩ := List.mem_flatMap.mp hmem
    obtain ⟨i, -, rfl⟩ := List.mem_map.mp hr
    exact ⟨g, hg, i, rfl, (h.resolve_refTo hg i).symm.trans hf⟩

end Store

namespace Tree

/-! ## Registrations along a run -/

def Op.application? : Op → Option Application
  | .register a => some a
  | _ => none

/-- The applications registered on a run, one after another. -/
def registrations (ops : List Op) : List Application := ops.filterMap Op.application?

theorem add_applications (t : Tree) (r : Report) : (t.add r).state.applications = t.applications := by
  rcases add_cases t r with ⟨e, log, h⟩ | ⟨f, log, -, h⟩ <;> rw [h] <;> rfl

theorem step_applications (t : Tree) (op : Op) :
    (t.step op).1.applications = op.application?.elim t.applications t.applications.register := by
  cases op with
  | add r => exact add_applications t r
  | _ => rfl

theorem run_applications (t : Tree) (ops : List Op) :
    (t.run ops).applications = (registrations ops).foldl Registry.register t.applications := by
  induction ops generalizing t with
  | nil => rfl
  | cons op ops ih =>
    rw [run, ih, step_applications, registrations, registrations, List.filterMap_cons]
    cases op.application? <;> rfl

/-- The registry after a run is that of all registrations, those before the run first. -/
theorem applications_run (view : Filtered) (policy : PathPolicy) (as : List Application) (ops : List Op) :
    (({ view, policy, applications := .ofList as } : Tree).run ops).applications =
      .ofList (as ++ registrations ops) := by
  rw [run_applications, Registry.ofList, Registry.ofList, List.foldl_append]

/-! ## One opening -/

section Opening

variable {t : Tree} {r : Ref} {selector : Option Selector}

theorem openFinding_of_no_finding (h : t.store.resolve r = none) :
    t.openFinding r selector = { result := .error (.saying r.index (.noFinding r.path r.index)) } := by
  rw [openFinding, h]

theorem openFinding_of_no_application {f : Finding} {e : Error} (h : t.store.resolve r = some f)
    (hpick : t.applications.pick (selector.getD (.position 0)) = .error e) :
    t.openFinding r selector = { result := .error e } := by
  simp only [openFinding, h, hpick]

/-- What an application answers when it is told to open a target. -/
def answerOf (a : Application) (target : Target) : Except Error Target :=
  match a.failure target with
  | some fault => .error (.applicationFailed fault)
  | none => .ok target

theorem openFinding_of_picked {f : Finding} {a : Application} (h : t.store.resolve r = some f)
    (hpick : t.applications.pick (selector.getD (.position 0)) = .ok a) :
    (t.openFinding r selector).result = answerOf a (t.target f) ∧
      (t.openFinding r selector).calls = [(a, t.target f)] := by
  simp only [openFinding, h, hpick, answerOf]
  cases a.failure (t.target f) <;> exact ⟨rfl, rfl⟩

end Opening

/-- In every state of a tree, with the applications registered so far: opening a reference at which no finding
stands says so and calls nothing, whatever is selected. Where a finding stands and nothing is picked, the
selector is refused and nothing is called. Either is told in the same way, but for an index or a position that is
too long to be written out. Where an application is picked, it and no other is called, once, with the target of
the finding; if it fails on that its fault is passed on, and else the target is the answer. The tree stays as it
is. -/
theorem openFinding_once (mask : Mask) (policy : PathPolicy) (as : List Application) (ops : List Op) (r : Ref)
    (selector : Option Selector) :
    let t := ({ view := { mask }, policy, applications := .ofList as } : Tree).run ops
    let registered := as ++ registrations ops
    let after := (t.step (.openFinding r selector)).1
    let reply := (t.step (.openFinding r selector)).2
    after = t ∧
    ((∀ f, ¬t.store.Holds r f) →
      reply.result = .error (if Legible r.index then .noFinding r.path r.index else .integerTooLong) ∧
        reply.openings = []) ∧
    ∀ f, t.store.Holds r f →
      ((∀ a, ¬Registry.Picks registered selector a) →
        reply.result = .error (Registry.missing (registered.map (·.name)).eraseDups selector) ∧
          reply.openings = []) ∧
      ∀ a, Registry.Picks registered selector a →
        reply.openings = [(a, t.target f)] ∧
        (a.failure (t.target f) = none → reply.result = .ok (.target (some (t.target f)))) ∧
        ∀ fault, a.failure (t.target f) = some fault → reply.result = .error (.applicationFailed fault) := by
  intro t registered after reply
  have hsound : Filters.Sound t.store := run_sound (t := { view := { mask }, policy, applications := .ofList as })
    (Filters.sound_empty 0) ops
  have hholds : ∀ f, t.store.Holds r f ↔ t.store.resolve r = some f := fun f => hsound.wellFormed.holds_iff
  have happlications : t.applications = .ofList registered := applications_run { mask } policy as ops
  have hpicks : ∀ a, Registry.Picks registered selector a ↔
      t.applications.pick (selector.getD (.position 0)) = .ok a := by
    intro a
    rw [happlications, Registry.pick_ofList_iff]
  have hresult : reply.result = (t.openFinding r selector).result.map fun target => .target (some target) := rfl
  have hopenings : reply.openings = (t.openFinding r selector).calls := rfl
  refine ⟨rfl, fun hnone => ?_, fun f hf => ⟨fun hunpicked => ?_, fun a ha => ?_⟩⟩
  · have hmissing : t.store.resolve r = none :=
      Option.eq_none_iff_forall_ne_some.mpr fun f hf => hnone f ((hholds f).mpr hf)
    rw [hresult, hopenings, openFinding_of_no_finding hmissing]
    exact ⟨rfl, rfl⟩
  · cases hpick : t.applications.pick (selector.getD (.position 0)) with
    | ok a => exact absurd ((hpicks a).mpr hpick) (hunpicked a)
    | error e =>
      rw [hresult, hopenings, openFinding_of_no_application ((hholds f).mp hf) hpick, Registry.pick_error hpick,
        happlications, Registry.names_ofList]
      exact ⟨rfl, rfl⟩
  · obtain ⟨hanswer, hcalls⟩ := openFinding_of_picked ((hholds f).mp hf) ((hpicks a).mp ha)
    rw [hresult, hopenings, hanswer, hcalls]
    refine ⟨rfl, fun hok => ?_, fun fault hfails => ?_⟩
    · rw [answerOf, hok]
      rfl
    · rw [answerOf, hfails]
      rfl

def editor : Application := { name := "editor", tag := 1 }

/-- A viewer that has no display. -/
def viewer : Application := { name := "viewer", tag := 2, failure := fun _ => some (.broken "no display") }

/-- A finding, and the same once more after a clearing. -/
def reopened : List Op := [.add unusedVariable, .clear, .register viewer, .add unusedVariable]

theorem reopened_once :
    let t := ({ applications := .ofList [editor] } : Tree).run reopened
    let replyTo := fun r selector => (t.step (.openFinding r selector)).2
    let kept : Ref := ⟨"/src/a.cpp", 0, 1⟩
    let target : Target := ⟨"/src/a.cpp", 0, .text "unused variable", .text "unusedVariable"⟩
    (replyTo kept none).openings = [(editor, target)] ∧
      (replyTo kept none).result = .ok (.target (some target)) ∧
      (replyTo kept (some (.name "viewer"))).openings = [(viewer, target)] ∧
      (replyTo kept (some (.name "viewer"))).result = .error (.applicationFailed (.broken "no display")) ∧
      (replyTo kept (some (.position (-1)))).openings = [] ∧
      (replyTo kept (some (.position (-1)))).result = .error (.noApplicationAt (-1) 2) ∧
      (replyTo ⟨"/src/a.cpp", 0, 0⟩ none).openings = [] ∧
      (replyTo ⟨"/src/a.cpp", 0, 0⟩ none).result = .error (.noFinding "/src/a.cpp" 0) := by
  intro t replyTo kept target
  have hall := openFinding_once {} {} [editor] reopened
  have hkept : ∃ f, t.store.Holds kept f ∧ t.target f = target :=
    ⟨_, ⟨_, List.mem_cons_self, 0, by decide, rfl⟩, rfl⟩
  obtain ⟨f, hf, htarget⟩ := hkept
  obtain ⟨heditor, hopened, -⟩ := ((hall kept none).2.2 f hf).2 editor ⟨"editor", rfl, rfl⟩
  obtain ⟨hviewer, -, hfailed⟩ := ((hall kept (some (.name "viewer"))).2.2 f hf).2 viewer rfl
  obtain ⟨hrefused, huncalled⟩ := ((hall kept (some (.position (-1)))).2.2 f hf).1 (by
    rintro a ⟨k, name, hk, -⟩
    omega)
  obtain ⟨hunknown, hquiet⟩ := (hall ⟨"/src/a.cpp", 0, 0⟩ none).2.1 (by
    rintro f ⟨g, -, i, hr, -⟩
    have hgeneration : (0 : Int) = 1 := congrArg Ref.generation hr
    cases hgeneration)
  rw [htarget] at heditor hopened hviewer
  exact ⟨heditor, hopened rfl, hviewer, hfailed _ rfl, huncalled, hrefused, hquiet, hunknown⟩

/-- A reference with an index that is too long to be written out. No finding stands there, and that is not told. -/
theorem overlong_index_not_reported :
    let r : Ref := ⟨"a.c", overlong, 0⟩
    (∀ f, ¬({} : Tree).store.Holds r f) ∧
      (({} : Tree).step (.openFinding r none)).2.result = .error .integerTooLong ∧
      ∀ path index, (({} : Tree).step (.openFinding r none)).2.result ≠ .error (.noFinding path index) := by
  intro r
  have hresult : (({} : Tree).step (.openFinding r none)).2.result = .error .integerTooLong := by
    have hmissing : ({} : Tree).store.resolve r = none := rfl
    simp only [step, openFinding_of_no_finding hmissing, Error.saying, if_neg not_legible_overlong, Except.map, r]
  refine ⟨?_, hresult, fun path index => ?_⟩
  · rintro f ⟨g, hg, -⟩
    exact absurd hg List.not_mem_nil
  · rw [hresult]
    simp

end Tree
end Findings
