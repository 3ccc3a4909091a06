import Mathlib.Data.List.Forall2
import Mathlib.Data.List.Induction
import Mathlib.Data.List.Nodup
import Mathlib.Tactic.SplitIfs

/-!
# Lists

What the theory needs of lists in general: reading back what was written element by element, elements that
are related one by one, what is found under a key, and the elements of a list without repetitions.
-/

namespace Findings

universe u

variable {α β γ : Type}

/-- What is written by `f` is read by `g` as `k`, element by element. -/
theorem mapM_map_pure {m : Type → Type u} [Monad m] [LawfulMonad m] {f : α → β} {g : β → m γ}
    {k : α → γ} (h : ∀ a, g (f a) = pure (k a)) (xs : List α) :
    (xs.map f).mapM g = pure (xs.map k) := by
  have hcomp : g ∘ f = fun a => pure (k a) := funext h
  rw [List.mapM_map, hcomp, List.mapM_pure]

theorem mapM_map_eq_self {m : Type → Type u} [Monad m] [LawfulMonad m] {f : α → β} {g : β → m α}
    (h : ∀ a, g (f a) = pure a) (xs : List α) : (xs.map f).mapM g = pure xs := by
  have hself := mapM_map_pure (k := id) h xs
  rwa [List.map_id] at hself

theorem exists_of_forall₂ {r : α → β → Prop} {xs : List α} {ys : List β} (h : List.Forall₂ r xs ys)
    {y : β} (hy : y ∈ ys) : ∃ x ∈ xs, r x y := by
  induction h with
  | nil => exact absurd hy List.not_mem_nil
  | @cons x y' xs ys hxy _ ih =>
    rcases List.mem_cons.mp hy with rfl | hy
    · exact ⟨x, List.mem_cons_self, hxy⟩
    · obtain ⟨x', hmem, hx'⟩ := ih hy
      exact ⟨x', List.mem_cons_of_mem x hmem, hx'⟩

theorem exists_forall₂ {r : α → β → Prop} {xs : List α} (h : ∀ x ∈ xs, ∃ y, r x y) :
    ∃ ys, List.Forall₂ r xs ys := by
  induction xs with
  | nil => exact ⟨[], .nil⟩
  | cons x xs ih =>
    rw [List.forall_mem_cons] at h
    obtain ⟨y, hy⟩ := h.1
    obtain ⟨ys, hys⟩ := ih h.2
    exact ⟨y :: ys, .cons hy hys⟩

theorem forall₂_of_mapM {f : α → Option β} {xs : List α} {ys : List β} (h : xs.mapM f = some ys) :
    List.Forall₂ (fun x y => f x = some y) xs ys := by
  induction xs generalizing ys with
  | nil =>
    obtain rfl := Option.some.inj h
    exact .nil
  | cons x xs ih =>
    rw [List.mapM_cons] at h
    obtain ⟨y, hy, hrest⟩ := Option.bind_eq_some_iff.mp h
    obtain ⟨ys', hys, hcons⟩ := Option.bind_eq_some_iff.mp hrest
    obtain rfl := Option.some.inj hcons
    exact .cons hy (ih hys)

/-- Of lists related element by element, the last elements are related. -/
theorem getLast?_of_forall₂ {r : α → β → Prop} {xs : List α} {ys : List β} (h : List.Forall₂ r xs ys) :
    Option.Rel r xs.getLast? ys.getLast? := by
  rw [List.getLast?_eq_head?_reverse, List.getLast?_eq_head?_reverse]
  have hreversed := List.forall₂_reverse_iff.mpr h
  generalize xs.reverse = xs', ys.reverse = ys' at hreversed
  cases hreversed with
  | nil => exact .none
  | cons hlast _ => exact .some hlast

/-- Elements that give nothing may be left out first. -/
theorem flatMap_filter_of_eq_nil {p : α → Bool} {f : α → List β} {xs : List α}
    (h : ∀ x ∈ xs, ¬p x → f x = []) : (xs.filter p).flatMap f = xs.flatMap f := by
  induction xs with
  | nil => rfl
  | cons x xs ih =>
    rw [List.forall_mem_cons] at h
    by_cases hx : p x
    · rw [List.filter_cons_of_pos hx, List.flatMap_cons, List.flatMap_cons, ih h.2]
    · rw [List.filter_cons_of_neg hx, List.flatMap_cons, h.1 hx, ih h.2, List.nil_append]

/-- Positions counted before elements are left out do not matter to what is made of the elements alone. -/
theorem map_zipIdx_filter (xs : List α) (p : α → Bool) (f : α → β) :
    ((xs.zipIdx.filter fun q => p q.1).map fun q => f q.1) = (xs.filter p).map f := by
  conv_rhs => rw [← List.zipIdx_map_fst 0 xs, List.filter_map, List.map_map]
  rfl

/-! ## Look-up by key -/

section Keys

variable [DecidableEq α] {entries : List (α × β)} {k : α}

/-- Under distinct keys each value is found. -/
theorem find?_key_eq_some_iff (hn : (entries.map (·.1)).Nodup) {v : β} :
    (entries.find? fun e => e.1 = k).map (·.2) = some v ↔ (k, v) ∈ entries := by
  rw [Option.map_eq_some_iff]
  constructor
  · rintro ⟨found, hfound, rfl⟩
    obtain rfl : found.1 = k := by simpa using List.find?_some hfound
    exact List.mem_of_find?_eq_some hfound
  · intro h
    obtain ⟨found, hfound⟩ : ∃ found, (entries.find? fun e => e.1 = k) = some found := by
      rw [← Option.isSome_iff_exists, List.find?_isSome]
      exact ⟨(k, v), h, decide_eq_true rfl⟩
    have hkey : found.1 = k := by simpa using List.find?_some hfound
    have hsame := List.inj_on_of_nodup_map hn (List.mem_of_find?_eq_some hfound) h hkey
    exact ⟨found, hfound, congrArg Prod.snd hsame⟩

theorem find?_key_eq_none_iff :
    (entries.find? fun e => e.1 = k).map (·.2) = none ↔ k ∉ entries.map (·.1) := by
  rw [Option.map_eq_none_iff, List.find?_eq_none, List.mem_map, not_exists]
  exact forall_congr' fun e => by rw [not_and, decide_eq_true_eq]

end Keys

/-! ## Without repetitions -/

variable [BEq α] [LawfulBEq α]

theorem eraseDups_concat (l : List α) (a : α) :
    (l ++ [a]).eraseDups = if a ∈ l then l.eraseDups else l.eraseDups ++ [a] := by
  rw [List.eraseDups_append]
  split_ifs with h
  · simp [List.removeAll, h]
  · simp [List.removeAll, h, List.eraseDups_cons]

theorem nodup_eraseDups (l : List α) : l.eraseDups.Nodup := by
  induction l using List.reverseRecOn with
  | nil => exact List.nodup_nil
  | append_singleton l a ih =>
    rw [eraseDups_concat]
    split_ifs with h
    · exact ih
    · rw [← List.concat_eq_append]
      exact ih.concat (mt List.mem_eraseDups.mp h)

/-- Leaving elements out first or last gives the same. -/
theorem eraseDups_filter (p : α → Bool) (l : List α) : (l.filter p).eraseDups = l.eraseDups.filter p := by
  induction l using List.reverseRecOn with
  | nil => rfl
  | append_singleton l a ih =>
    by_cases ha : p a
    · have hlast : (l ++ [a]).filter p = l.filter p ++ [a] := by simp [ha]
      have hmem : a ∈ l.filter p ↔ a ∈ l := by simp [ha]
      rw [hlast, eraseDups_concat, eraseDups_concat, ih]
      split_ifs <;> simp_all
    · have hlast : (l ++ [a]).filter p = l.filter p := by simp [ha]
      rw [hlast, eraseDups_concat, ih]
      split_ifs <;> simp [ha]

theorem eraseDups_append_of_disjoint {l l' : List α} (h : ∀ a ∈ l, a ∉ l') :
    (l ++ l').eraseDups = l.eraseDups ++ l'.eraseDups := by
  have hkeep : l'.removeAll l = l' := by
    refine List.filter_eq_self.mpr fun a ha => ?_
    simpa using fun hmem => h a hmem ha
  rw [List.eraseDups_append, hkeep]

/-- Of repetitions of one element, one is left. -/
theorem eraseDups_of_forall_eq {l : List α} {a : α} (hne : l ≠ []) (h : ∀ b ∈ l, b = a) :
    l.eraseDups = [a] := by
  cases l with
  | nil => exact absurd rfl hne
  | cons b l =>
    obtain rfl := h b List.mem_cons_self
    have hnone : l.filter (fun c => !c == b) = [] := by
      rw [List.filter_eq_nil_iff]
      intro c hc
      simp [h c (List.mem_cons_of_mem b hc)]
    rw [List.eraseDups_cons, hnone]
    rfl

end Findings
