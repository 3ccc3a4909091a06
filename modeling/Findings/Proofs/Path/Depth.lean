import Findings.Proofs.Path.Drives

/-!
# How deep components lead

`depth parts`: the names among the components less the steps up. Without a root nothing of it is lost when the
components are resolved (`depth_foldl_push`), so a step up stays in front just if some beginning of them leads
above the start (`up_mem_foldl_push_iff`). With a root the same names stay, and no steps up
(`resolve_eq_append_ups`).

Behind another path, resolved components lead where they led before (`foldl_push_resolve`); those resolved
behind a root do so just if no step up was lost there (`Stack.foldl_push_resolve_rooted_iff`). For paths: what is
joined to a path that leads to no root may be put in canonical spelling first, unless it steps above a root of
its own (`canonical_append_canonical_iff`).
-/

namespace Findings.Path

variable {rooted : Bool} {stack parts : List Text} {part u : Text}

/-! ## Depth -/

/-- A name leads one folder down, a step up leads up; nothing and a dot stay. -/
def descent (part : Text) : Int :=
  if part = [] ∨ part = Text.ofString "." then 0 else if part = up then -1 else 1

/-- How far components lead down. -/
def depth : List Text → Int
  | [] => 0
  | part :: parts => descent part + depth parts

theorem descent_skip (h : part = [] ∨ part = Text.ofString ".") : descent part = 0 := if_pos h

theorem descent_up : descent up = -1 := by decide

theorem descent_name (h : IsName part) : descent part = 1 := by
  unfold descent
  rw [if_neg (not_or.mpr ⟨h.1, h.2.1⟩), if_neg h.2.2]

@[simp]
theorem depth_nil : depth [] = 0 := rfl

@[simp]
theorem depth_cons (part : Text) (parts : List Text) : depth (part :: parts) = descent part + depth parts := rfl

@[simp]
theorem depth_append (before after : List Text) : depth (before ++ after) = depth before + depth after := by
  induction before with
  | nil => exact (Int.zero_add _).symm
  | cons part before ih => rw [List.cons_append, depth_cons, ih, depth_cons, Int.add_assoc]

/-- A component pushed changes the depth by its descent, unless it is a step up from the root. -/
theorem Stack.depth_push (h : Stack rooted stack) (hroot : rooted = true → part = Path.up → stack ≠ []) :
    depth (Path.push rooted stack part) = depth stack + descent part := by
  rcases eq_skip_or_up_or_isName part with hskip | rfl | hname
  · rw [push_skip hskip, descent_skip hskip, Int.add_zero]
  · cases h with
    | nil =>
      cases rooted with
      | false => rfl
      | true => exact absurd rfl (hroot rfl rfl)
    | up _ _ _ =>
      rw [push_up_cons, if_pos rfl, depth_cons, Int.add_comm]
    | name hname _ =>
      rw [push_up_cons, if_neg hname.2.2, depth_cons, descent_name hname, descent_up]
      omega
  · rw [push_name hname, depth_cons, Int.add_comm]

theorem depth_foldl_push (h : Stack false stack) (parts : List Text) :
    depth (parts.foldl (push false) stack) = depth stack + depth parts := by
  induction parts generalizing stack with
  | nil => exact (Int.add_zero _).symm
  | cons part parts ih =>
    have hpush : depth (push false stack part) = depth stack + descent part :=
      h.depth_push fun h => absurd h Bool.false_ne_true
    rw [List.foldl_cons, ih (h.push part), hpush, depth_cons, Int.add_assoc]

/-- A stack without steps up leads down. -/
theorem Stack.depth_nonneg (h : Stack rooted stack) (hup : Path.up ∉ stack) : 0 ≤ depth stack := by
  induction h with
  | nil => exact Int.le_refl 0
  | up _ _ _ => exact absurd List.mem_cons_self hup
  | name hname _ ih =>
    have hrest := ih fun hmem => hup (List.mem_cons_of_mem _ hmem)
    rw [depth_cons, descent_name hname]
    omega

/-! ## Steps up that stay -/

theorem up_mem_push (h : up ∈ stack) (part : Text) : up ∈ push rooted stack part := by
  rcases eq_skip_or_up_or_isName part with hskip | rfl | hname
  · rwa [push_skip hskip]
  · cases stack with
    | nil => exact absurd h List.not_mem_nil
    | cons top below =>
      rw [push_up_cons]
      split_ifs with htop
      · exact List.mem_cons_self
      · exact (List.mem_cons.mp h).resolve_left (Ne.symm htop)
  · rw [push_name hname]
    exact List.mem_cons_of_mem part h

theorem up_mem_foldl_push (h : up ∈ stack) (parts : List Text) : up ∈ parts.foldl (push rooted) stack := by
  induction parts generalizing stack with
  | nil => exact h
  | cons part parts ih => exact ih (up_mem_push h part)

/-- A step up stays where none was before only if there is nothing to take away. -/
theorem eq_nil_of_up_mem_push (hbefore : up ∉ stack) (h : up ∈ push rooted stack up) : stack = [] := by
  cases stack with
  | nil => rfl
  | cons top below =>
    rw [List.mem_cons, not_or] at hbefore
    rw [push_up_cons, if_neg (Ne.symm hbefore.1)] at h
    exact absurd h hbefore.2

/-- Some beginning of the components leads above their start. -/
def LeadsAbove (parts : List Text) : Prop := ∃ front, front <+: parts ∧ depth front < 0

/-- Without a root a step up stays just if some beginning of the components leads above the start. -/
theorem up_mem_foldl_push_iff (parts : List Text) :
    up ∈ parts.foldl (push false) [] ↔ LeadsAbove parts := by
  constructor
  · -- The induction is on the last component: the first step up that stays is the beginning looked for.
    induction parts using List.reverseRecOn with
    | nil => exact fun h => absurd h List.not_mem_nil
    | append_singleton parts part ih =>
      intro hmem
      by_cases hbefore : up ∈ parts.foldl (push false) []
      · obtain ⟨front, hfront, hneg⟩ := ih hbefore
        exact ⟨front, hfront.trans (List.prefix_append _ _), hneg⟩
      · rw [List.foldl_append, List.foldl_cons, List.foldl_nil] at hmem
        obtain rfl := (mem_push hmem).resolve_left hbefore
        have hlevel := depth_foldl_push .nil parts
        rw [eq_nil_of_up_mem_push hbefore hmem, depth_nil] at hlevel
        refine ⟨parts ++ [up], List.prefix_refl _, ?_⟩
        rw [depth_append, depth_cons, depth_nil, descent_up]
        omega
  · rintro ⟨front, ⟨rest, rfl⟩, hneg⟩
    rw [List.foldl_append]
    refine up_mem_foldl_push ?_ rest
    by_contra hnone
    have hnonneg := (stack_foldl .nil front : Stack false _).depth_nonneg hnone
    rw [depth_foldl_push .nil, depth_nil] at hnonneg
    omega

/-! ## Resolved behind a root -/

theorem filter_ups (h : ∀ part ∈ stack, part = up) : stack.filter (· ≠ up) = [] :=
  List.filter_eq_nil_iff.mpr (by simpa using h)

/-- Behind a root, the names of a stack take a component like the stack without one. -/
theorem Stack.push_filter (h : Stack false stack) (part : Text) :
    Path.push true (stack.filter (· ≠ Path.up)) part = (Path.push false stack part).filter (· ≠ Path.up) := by
  rcases eq_skip_or_up_or_isName part with hskip | rfl | hname
  · rw [push_skip hskip, push_skip hskip]
  · cases h with
    | nil => rfl
    | @up below _ hup _ =>
      have hups : ∀ part ∈ Path.up :: below, part = Path.up := List.forall_mem_cons.mpr ⟨rfl, hup⟩
      rw [push_up_cons, if_pos rfl, filter_ups hups, filter_ups (List.forall_mem_cons.mpr ⟨rfl, hups⟩)]
      rfl
    | name hname _ =>
      rw [push_up_cons, if_neg hname.2.2, List.filter_cons_of_pos (by simpa using hname.2.2), push_up_cons,
        if_neg hname.2.2]
  · rw [push_name hname, push_name hname, List.filter_cons_of_pos (by simpa using hname.2.2)]

theorem foldl_push_filter (h : Stack false stack) (parts : List Text) :
    parts.foldl (push true) (stack.filter (· ≠ up)) = (parts.foldl (push false) stack).filter (· ≠ up) := by
  induction parts generalizing stack with
  | nil => rfl
  | cons part parts ih => rw [List.foldl_cons, h.push_filter, List.foldl_cons, ih (h.push part)]

/-- Without a root the same names stay as behind one, with steps up in front of them if some beginning of the
components leads above the start. -/
theorem resolve_eq_append_ups (parts : List Text) :
    ∃ names steps, (∀ part ∈ names, IsName part) ∧ resolve true parts = names ∧
      resolve false parts = List.replicate steps up ++ names ∧ (steps ≠ 0 ↔ LeadsAbove parts) := by
  obtain ⟨names, steps, hstack, -, hnames⟩ := (stack_foldl .nil parts : Stack false _).eq_append_ups
  refine ⟨names.reverse, steps, fun part hpart => hnames part (List.mem_reverse.mp hpart), ?_, ?_, ?_⟩
  · have hups : (List.replicate steps up).filter (· ≠ up) = [] :=
      filter_ups fun _ hpart => List.eq_of_mem_replicate hpart
    have hkept : names.filter (· ≠ up) = names :=
      List.filter_eq_self.mpr fun part hpart => decide_eq_true (hnames part hpart).2.2
    have hfold := foldl_push_filter .nil parts
    rw [hstack, List.filter_append, hups, hkept, List.append_nil, List.filter_nil] at hfold
    rw [resolve, hfold]
  · rw [resolve, hstack, List.reverse_append, List.reverse_replicate]
  · have hnone : up ∉ names := fun hmem => (hnames up hmem).2.2 rfl
    rw [← up_mem_foldl_push_iff, hstack, List.mem_append, or_iff_right hnone, List.mem_replicate]
    simp

/-! ## Behind another path -/

/-- Pushed on another stack, a stack with a component more leads where the component leads from the stack. -/
theorem Stack.foldl_push (h : Stack false stack) (below : List Text) (part : Text) :
    (Path.push false stack part).reverse.foldl (Path.push rooted) below =
      Path.push rooted (stack.reverse.foldl (Path.push rooted) below) part := by
  rcases eq_skip_or_up_or_isName part with hskip | rfl | hname
  · rw [push_skip hskip, push_skip hskip]
  · cases h with
    | nil => rfl
    | up _ _ _ =>
      rw [push_up_cons, if_pos rfl, List.reverse_cons, List.foldl_append]
      rfl
    | name hname _ =>
      rw [push_up_cons, if_neg hname.2.2, List.reverse_cons, List.foldl_append, List.foldl_cons,
        List.foldl_nil, push_name hname, push_up_cons, if_neg hname.2.2]
  · rw [push_name hname, List.reverse_cons, List.foldl_append]
    rfl

/-- Resolved without a root, components lead where they led before. -/
theorem foldl_push_resolve (below parts : List Text) :
    (resolve false parts).foldl (push rooted) below = parts.foldl (push rooted) below := by
  have hfrom : ∀ {stack}, Stack false stack →
      (parts.foldl (push false) stack).reverse.foldl (push rooted) below =
        parts.foldl (push rooted) (stack.reverse.foldl (push rooted) below) := by
    induction parts with
    | nil => exact fun _ => rfl
    | cons part parts ih =>
      intro stack hstack
      rw [List.foldl_cons, ih (hstack.push part), hstack.foldl_push, List.foldl_cons]
  exact hfrom .nil

theorem Stack.depth_foldl_ups_le (h : Stack rooted stack) (steps : Nat) :
    depth ((List.replicate steps Path.up).foldl (Path.push rooted) stack) ≤ depth stack := by
  induction steps generalizing stack with
  | zero => exact Int.le_refl _
  | succ steps ih =>
    rw [List.replicate_succ, List.foldl_cons]
    refine Int.le_trans (ih (h.push Path.up)) ?_
    by_cases hroot : rooted = true ∧ stack = []
    · obtain ⟨rfl, rfl⟩ := hroot
      exact Int.le_refl _
    · rw [h.depth_push fun hrooted _ hnil => hroot ⟨hrooted, hnil⟩, descent_up]
      omega

/-- Steps up lead elsewhere, but from a root. -/
theorem Stack.foldl_ups_ne (h : Stack rooted stack) (hroot : rooted = true → stack ≠ []) {steps : Nat}
    (hsteps : steps ≠ 0) : (List.replicate steps Path.up).foldl (Path.push rooted) stack ≠ stack := by
  obtain ⟨steps, rfl⟩ := Nat.exists_eq_succ_of_ne_zero hsteps
  have hfirst : depth (Path.push rooted stack Path.up) = depth stack + descent Path.up :=
    h.depth_push fun hrooted _ => hroot hrooted
  have hrest := (h.push Path.up).depth_foldl_ups_le steps
  rw [descent_up] at hfirst
  intro hsame
  rw [List.replicate_succ, List.foldl_cons] at hsame
  rw [hsame] at hrest
  omega

/-- Resolved behind a root, components lead where they led before, from anywhere but a root, just if no
beginning of them leads above the start. -/
theorem Stack.foldl_push_resolve_rooted_iff (h : Stack rooted stack) (hroot : rooted = true → stack ≠ [])
    (parts : List Text) :
    (resolve true parts).foldl (Path.push rooted) stack = parts.foldl (Path.push rooted) stack ↔
      ¬LeadsAbove parts := by
  obtain ⟨names, steps, hnames, hrooted, hfree, hsteps⟩ := resolve_eq_append_ups parts
  rw [← foldl_push_resolve stack parts, hrooted, hfree, List.foldl_append, foldl_push_names hnames,
    foldl_push_names hnames, List.append_cancel_left_eq, ← hsteps, not_not]
  constructor
  · intro hsame
    by_contra hne
    exact h.foldl_ups_ne hroot hne hsame.symm
  · rintro rfl
    rfl

/-! ## Joined paths -/

/-- The components of a path that stay, last first. -/
def stackOf (u : Text) : List Text := (Text.split slash (fold u)).foldl (push (root (fold u) ≠ [])) []

theorem stack_stackOf (u : Text) : Stack (root (fold u) ≠ []) (stackOf u) := stack_foldl .nil _

/-- Behind a path that leads to no root, there are components if it starts at one. -/
theorem stackOf_ne_nil (h : ¬IsRoot (canonical u)) (hroot : root (fold u) ≠ []) : stackOf u ≠ [] := by
  intro hnil
  have hne : u ≠ [] := by
    rintro rfl
    exact h (.inl rfl)
  have hspelled : canonical u = root (fold u) := by
    rw [canonical_of_ne_nil hne, resolve, ← stackOf, hnil,
      spelled_of_ne_nil (List.append_ne_nil_of_left_ne_nil hroot _)]
    exact List.append_nil _
  exact h (hspelled ▸ isRoot_root _)

/-- Two paths joined to the same, which is more than slashes, give one path just if they lead to the same
from there. -/
theorem canonical_append_eq_iff (h : ∃ c ∈ fold u, c ≠ slash) (v w : Text) :
    canonical (u ++ slash :: v) = canonical (u ++ slash :: w) ↔
      (Text.split slash (fold v)).foldl (push (root (fold u) ≠ [])) (stackOf u) =
        (Text.split slash (fold w)).foldl (push (root (fold u) ≠ [])) (stackOf u) := by
  have hparts : ∀ t, (Text.split slash (fold t)).foldl (push (root (fold u) ≠ [])) (stackOf u) =
      (resolve (root (fold u) ≠ []) (Text.split slash (fold u) ++ Text.split slash (fold t))).reverse := by
    intro t
    rw [resolve, List.reverse_reverse, List.foldl_append, stackOf]
  have hresolved : ∀ t, IsResolved (root (fold u) ≠ [])
      (resolve (root (fold u) ≠ []) (Text.split slash (fold u) ++ Text.split slash (fold t))) := by
    intro t
    rw [← Text.split_append, ← fold_append_slash]
    exact isResolved_resolve _
  rw [canonical_append h, canonical_append h, hparts, hparts, List.reverse_inj]
  constructor
  · intro hsame
    rw [← (parts_spelled (isRoot_root _) (hresolved v)).2, hsame,
      (parts_spelled (isRoot_root _) (hresolved w)).2]
  · intro hsame
    rw [hsame]

/-- The path starts with a separator. -/
def IsRooted (v : Text) : Prop := ∃ c ∈ v.head?, IsSeparator c

instance (v : Text) : Decidable (IsRooted v) := inferInstanceAs (Decidable (∃ c ∈ v.head?, IsSeparator c))

theorem IsRooted.exists_fold {v : Text} (h : IsRooted v) : ∃ rest, fold v = slash :: rest := by
  obtain ⟨c, hc, hsep⟩ := h
  obtain ⟨rest, rfl⟩ := List.head?_eq_some_iff.mp hc
  exact ⟨fold rest, fold_cons_of_isSeparator hsep rest⟩

theorem root_fold_ne_nil_iff (v : Text) : root (fold v) ≠ [] ↔ IsRooted v := by
  constructor
  · intro hroot
    cases v with
    | nil => exact absurd rfl hroot
    | cons c v =>
      refine ⟨c, rfl, by_contra fun hother => hroot ?_⟩
      rw [IsSeparator, not_or] at hother
      have hfold : fold (c :: v) = c :: fold v := congrArg (· :: fold v) (if_neg hother.2)
      rw [hfold, root, List.takeWhile_cons_of_neg (by simpa using hother.1)]
      rfl
  · intro h
    obtain ⟨rest, hfold⟩ := h.exists_fold
    rw [hfold]
    exact root_slash_cons_ne_nil rest

/-- The path starts at a root, and some beginning of its components leads above that. -/
def StepsAboveRoot (v : Text) : Prop := IsRooted v ∧ LeadsAbove (Text.split slash (fold v))

/-- What is joined to a path that leads to no root may be put in canonical spelling first, as may that path,
just if it does not step above a root of its own. -/
theorem canonical_append_canonical_iff (h : ¬IsRoot (canonical u)) (v : Text) :
    canonical (u ++ slash :: v) = canonical (canonical u ++ slash :: canonical v) ↔ ¬StepsAboveRoot v := by
  rw [canonical_join h]
  by_cases hv : v = []
  · subst hv
    exact iff_of_true rfl fun habove => absurd habove.1 (by decide)
  rw [canonical_append_eq_iff (exists_of_not_isRoot h), fold_canonical, canonical_of_ne_nil hv,
    foldl_push_spelled (isRoot_root _) (isResolved_resolve v), StepsAboveRoot, ← root_fold_ne_nil_iff, eq_comm]
  by_cases hrooted : root (fold v) = []
  · simp only [hrooted, ne_eq, not_true_eq_false, decide_false, false_and, not_false_eq_true, iff_true]
    exact foldl_push_resolve _ _
  · simp only [hrooted, ne_eq, not_false_eq_true, decide_true, true_and]
    exact (stack_stackOf u).foldl_push_resolve_rooted_iff
      (fun hroot => stackOf_ne_nil h (of_decide_eq_true hroot)) _

end Findings.Path
