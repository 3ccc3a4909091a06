import Findings.Proofs.Store.Content

/-!
# The life of a reference

`Store.Later` relates a store to what it becomes: without a clearing in between, every reference that
resolves goes on resolving to the same finding, flags apart; with one, the generation has passed. It
composes (`Later.trans`), and decides what becomes of a reference just given out: it resolves until the
next clearing and never again after it, and no later finding gets it (`Later.resolve_nextRef`,
`Later.resolve_eq_none`, `Later.nextRef_ne`).
-/

namespace Findings.Store

/-- What a store can become; `cleared` says whether there is a clearing on the way. -/
inductive Later (s s' : Store) (cleared : Prop) : Prop
  | kept : ¬cleared → s'.generation = s.generation →
      (∀ r f, s.content.resolve r = some f → s'.content.resolve r = some f) → Later s s' cleared
  | cleared : cleared → s.generation < s'.generation → Later s s' cleared

theorem Later.of_content_eq {s s' : Store} {cleared : Prop} (h : s'.content = s.content) (hc : ¬cleared) :
    Later s s' cleared := by
  refine .kept hc ?_ fun r f hr => by rwa [h]
  rw [← content_generation s', h, content_generation]

theorem Later.generation_le {s s' : Store} {cleared : Prop} (h : Later s s' cleared) :
    s.generation ≤ s'.generation := by
  cases h with
  | kept _ hg _ => exact Nat.le_of_eq hg.symm
  | cleared _ hg => exact Nat.le_of_lt hg

theorem Later.trans {s₁ s₂ s₃ : Store} {a b : Prop} (h : Later s₁ s₂ a) (h' : Later s₂ s₃ b) :
    Later s₁ s₃ (a ∨ b) := by
  have hle := h.generation_le
  have hle' := h'.generation_le
  cases h with
  | cleared ha hg => exact .cleared (.inl ha) (by omega)
  | kept ha hg hr =>
    cases h' with
    | cleared hb hg' => exact .cleared (.inr hb) (by omega)
    | kept hb hg' hr' =>
      exact .kept (not_or.mpr ⟨ha, hb⟩) (hg'.trans hg) fun r f hf => hr' r f (hr r f hf)

theorem later_clear (s : Store) {cleared : Prop} (h : cleared) : Later s s.clear cleared :=
  .cleared h (Nat.lt_succ_self _)

/-! ## Adding -/

theorem fileOf_eq_some_iff (s : Store) (r : Ref) (g : FileGroup) :
    s.fileOf r = some g ↔ r.generation = s.generation ∧ s.group? r.path = some g := by
  unfold fileOf
  split <;> simp_all

theorem resolve_eq_some_iff (s : Store) (r : Ref) (f : Finding) :
    s.resolve r = some f ↔
      ∃ g, s.fileOf r = some g ∧ 0 ≤ r.index ∧ g.findings[r.index.toNat]? = some f := by
  unfold resolve
  cases s.fileOf r with
  | none => simp
  | some g => by_cases hi : 0 ≤ r.index <;> simp [hi]

theorem resolve_insert {s : Store} {r : Ref} {f : Finding} (h : s.resolve r = some f)
    (f' : Finding) : (s.insert f').resolve r = some f := by
  obtain ⟨g, hg, hi, hf⟩ := (resolve_eq_some_iff s r f).mp h
  obtain ⟨hgen, hgroup⟩ := (fileOf_eq_some_iff s r g).mp hg
  rw [resolve_eq_some_iff]
  by_cases hp : r.path = f'.file
  · refine ⟨g.append f', (fileOf_eq_some_iff _ r _).mpr ⟨hgen, ?_⟩, hi, ?_⟩
    · rw [group?_insert, if_pos hp, groupFor, hgroup]
      rfl
    · have hlt : r.index.toNat < g.findings.length := (List.getElem?_eq_some_iff.mp hf).1
      rw [← hf, FileGroup.append]
      exact List.getElem?_append_left hlt
  · refine ⟨g, (fileOf_eq_some_iff _ r _).mpr ⟨hgen, ?_⟩, hi, hf⟩
    rw [group?_insert, if_neg hp, hgroup]

theorem later_insert (s : Store) (f : Finding) {cleared : Prop} (h : ¬cleared) :
    Later s (s.insert f) cleared := by
  refine .kept h rfl fun r f' hr => ?_
  rw [resolve_content, Option.map_eq_some_iff] at hr ⊢
  obtain ⟨f₀, hf₀, hc⟩ := hr
  exact ⟨f₀, resolve_insert hf₀ f, hc⟩

theorem later_reserve (s : Store) (path : Text) {cleared : Prop} (h : ¬cleared) :
    Later s (s.reserve path) cleared := by
  refine .kept h (s.reserve_generation path) fun r f hr => ?_
  rw [resolve_content] at hr ⊢
  rwa [resolve_reserve]

/-! ## A reference just given out -/

theorem Later.resolve_nextRef {s s' : Store} {f : Finding} {cleared : Prop}
    (h : Later (s.insert f) s' cleared) (hc : ¬cleared) :
    ∃ hidden, s'.resolve (s.nextRef f.file) = some { f with hidden } := by
  cases h with
  | cleared hc' _ => exact absurd hc' hc
  | kept _ _ hr =>
    have hs := hr (s.nextRef f.file) f.content (by rw [resolve_content, resolve_insert_nextRef]; rfl)
    rw [resolve_content, Option.map_eq_some_iff] at hs
    obtain ⟨f', hf', hc⟩ := hs
    exact ⟨f'.hidden, hf'.trans (congrArg some (Finding.eq_of_content_eq hc))⟩

theorem Later.resolve_eq_none {s s' : Store} {f : Finding} {cleared : Prop}
    (h : Later (s.insert f) s' cleared) (hc : cleared) :
    s'.resolve (s.nextRef f.file) = none := by
  cases h with
  | kept hkept _ _ => exact absurd hc hkept
  | cleared _ hg =>
    apply Store.resolve_eq_none
    have : s.generation < s'.generation := hg
    simp only [nextRef]
    omega

theorem Later.nextRef_ne {s s' : Store} {f : Finding} {cleared : Prop}
    (h : Later (s.insert f) s' cleared) (path : Text) : s'.nextRef path ≠ s.nextRef f.file := by
  intro he
  by_cases hc : cleared
  · cases h with
    | kept hkept _ _ => exact hkept hc
    | cleared _ hg =>
      have hlt : s.generation < s'.generation := hg
      have : (s'.generation : Int) = s.generation := congrArg Ref.generation he
      omega
  · obtain ⟨hidden, hs⟩ := h.resolve_nextRef hc
    rw [← he, Store.resolve_nextRef] at hs
    cases hs

end Findings.Store
