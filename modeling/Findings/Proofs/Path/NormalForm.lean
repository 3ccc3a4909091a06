import Findings.Path.Canonical
import Findings.Proofs.Text.Surrogates

/-!
# The normal form of a path

The components that stay when a path is resolved are names, and in front of them steps up if there is no
root (`stack_foldl`). Resolved once more they stay as they are (`foldl_push_of_stack`). A root with such
components is its own canonical spelling (`canonical_spelled`), and all but the empty path are spelled so
(`canonical_of_ne_nil`); so a canonical spelling stays as it is (`canonical_canonical`).
-/

namespace Findings.Path

/-! ## Components that stay -/

/-- The step to the folder above. -/
def up : Text := ".."

/-- A component that is a name. -/
def IsName (part : Text) : Prop := part ≠ [] ∧ part ≠ Text.ofString "." ∧ part ≠ up

theorem eq_skip_or_up_or_isName (part : Text) :
    (part = [] ∨ part = Text.ofString ".") ∨ part = up ∨ IsName part := by
  by_cases hskip : part = [] ∨ part = Text.ofString "."
  · exact .inl hskip
  · rw [not_or] at hskip
    by_cases hup : part = up
    · exact .inr (.inl hup)
    · exact .inr (.inr ⟨hskip.1, hskip.2, hup⟩)

/-- Components that stay, last first: names, and below them steps up if there is no root. -/
inductive Stack (rooted : Bool) : List Text → Prop where
  | nil : Stack rooted []
  | up {stack : List Text} (hroot : rooted = false) (hup : ∀ part ∈ stack, part = up)
      (h : Stack rooted stack) : Stack rooted (up :: stack)
  | name {part : Text} {stack : List Text} (hpart : IsName part) (h : Stack rooted stack) :
      Stack rooted (part :: stack)

variable {rooted : Bool} {stack parts : List Text} {part : Text}

theorem push_skip (h : part = [] ∨ part = Text.ofString ".") : push rooted stack part = stack := by
  unfold push
  exact if_pos (by simpa using h)

theorem push_name (h : IsName part) : push rooted stack part = part :: stack := by
  obtain ⟨hne, hdot, hup⟩ := h
  unfold push
  rw [if_neg (by simp [hne, hdot])]
  exact if_neg hup

theorem push_up_nil : push rooted [] up = if rooted then [] else [up] := rfl

theorem push_up_cons (top : Text) (below : List Text) :
    push rooted (top :: below) up = if top = up then up :: top :: below else below := rfl

theorem Stack.push (h : Stack rooted stack) (part : Text) :
    Stack rooted (push rooted stack part) := by
  rcases eq_skip_or_up_or_isName part with hskip | rfl | hname
  · rwa [push_skip hskip]
  · cases h with
    | nil =>
      rw [push_up_nil]
      cases rooted with
      | true => exact .nil
      | false => exact .up rfl (fun _ h => absurd h List.not_mem_nil) .nil
    | up hroot hup h =>
      rw [push_up_cons, if_pos rfl]
      exact .up hroot (List.forall_mem_cons.mpr ⟨rfl, hup⟩) (.up hroot hup h)
    | name hpart h =>
      rw [push_up_cons, if_neg hpart.2.2]
      exact h
  · rw [push_name hname]
    exact .name hname h

theorem stack_foldl (h : Stack rooted stack) (parts : List Text) :
    Stack rooted (parts.foldl (push rooted) stack) := by
  induction parts generalizing stack with
  | nil => exact h
  | cons part parts ih => exact ih (h.push part)

/-- Pushed one after another, components that stay give the stack again. -/
theorem foldl_push_of_stack (h : Stack rooted stack) :
    stack.reverse.foldl (push rooted) [] = stack := by
  induction h with
  | nil => rfl
  | @up stack hroot hup h ih =>
    rw [List.reverse_cons, List.foldl_append, ih]
    cases stack with
    | nil => rw [List.foldl_cons, push_up_nil, hroot]; rfl
    | cons top below =>
      rw [List.foldl_cons, push_up_cons, if_pos (hup top List.mem_cons_self)]
      rfl
  | name hpart h ih =>
    rw [List.reverse_cons, List.foldl_append, ih]
    exact push_name hpart

theorem mem_push {part p : Text} (h : p ∈ push rooted stack part) : p ∈ stack ∨ p = part := by
  rcases eq_skip_or_up_or_isName part with hskip | rfl | hname
  · rw [push_skip hskip] at h
    exact .inl h
  · cases stack with
    | nil => cases rooted <;> simp_all [push_up_nil]
    | cons top below =>
      rw [push_up_cons] at h
      split at h
      · exact (List.mem_cons.mp h).symm
      · exact .inl (List.mem_cons_of_mem top h)
  · rw [push_name hname] at h
    exact (List.mem_cons.mp h).symm

theorem mem_foldl_push {p : Text} (h : p ∈ parts.foldl (push rooted) stack) :
    p ∈ stack ∨ p ∈ parts := by
  induction parts generalizing stack with
  | nil => exact .inl h
  | cons part parts ih =>
    rcases ih h with h | h
    · rcases mem_push h with h | rfl
      · exact .inl h
      · exact .inr List.mem_cons_self
    · exact .inr (List.mem_cons_of_mem part h)

/-! ## Components of a resolved path -/

/-- The components of a normal form: those that stay, without separators in them. -/
structure IsResolved (rooted : Bool) (parts : List Text) : Prop where
  stack : Stack rooted parts.reverse
  no_slash : ∀ part ∈ parts, slash ∉ part
  no_backslash : ∀ part ∈ parts, backslash ∉ part

theorem IsResolved.backslash_not_mem_join (h : IsResolved rooted parts) :
    backslash ∉ Text.join [slash] parts := by
  intro hmem
  rcases Text.mem_join hmem with hmem | ⟨part, hpart, hmem⟩
  · exact absurd hmem (by decide)
  · exact h.no_backslash part hpart hmem

theorem resolve_eq_self (h : IsResolved rooted parts) : resolve rooted parts = parts := by
  have hfold := foldl_push_of_stack h.stack
  rw [List.reverse_reverse] at hfold
  rw [resolve, hfold, List.reverse_reverse]

theorem resolve_cons_nil (parts : List Text) : resolve rooted ([] :: parts) = resolve rooted parts :=
  rfl

theorem backslash_not_mem_fold (t : Text) : backslash ∉ fold t := by
  intro h
  obtain ⟨c, -, hc⟩ := List.mem_map.mp h
  split_ifs at hc with hback
  · exact absurd hc (by decide)
  · exact hback hc

theorem fold_eq_self {t : Text} (h : backslash ∉ t) : fold t = t := by
  have hself : ∀ c ∈ t, (if c = backslash then slash else c) = c := fun c hc =>
    if_neg fun e : c = backslash => h (e ▸ hc)
  rw [fold, List.map_congr_left hself, List.map_id']

theorem isResolved_resolve (p : Text) :
    IsResolved rooted (resolve rooted (Text.split slash (fold p))) where
  stack := by
    rw [resolve, List.reverse_reverse]
    exact stack_foldl .nil _
  no_slash part hpart := by
    rw [resolve, List.mem_reverse] at hpart
    have hmem := (mem_foldl_push hpart).resolve_left List.not_mem_nil
    exact Text.not_mem_of_mem_split hmem
  no_backslash part hpart := by
    rw [resolve, List.mem_reverse] at hpart
    have hmem := (mem_foldl_push hpart).resolve_left List.not_mem_nil
    exact fun h => backslash_not_mem_fold p ((Text.infix_of_mem_split hmem).subset h)

/-! ## Roots -/

/-- Nothing, one slash or two. -/
def IsRoot (start : Text) : Prop := start = [] ∨ start = [slash] ∨ start = [slash, slash]

theorem isRoot_root (p : Text) : IsRoot (root p) := by
  unfold root
  split
  · exact .inl rfl
  · exact .inr (.inr rfl)
  · exact .inr (.inl rfl)

theorem root_append {start rest : Text} (h : IsRoot start) (hrest : rest.head? ≠ some slash) :
    root (start ++ rest) = start := by
  have hstart : ∀ c ∈ start, decide (c = slash) = true := by
    rcases h with rfl | rfl | rfl <;> decide
  have hstop : ∀ c ∈ rest.head?, ¬decide (c = slash) = true := by
    rintro c hc heq
    exact hrest (of_decide_eq_true heq ▸ hc)
  rw [root, Text.takeWhile_append_stop hstart hstop]
  rcases h with rfl | rfl | rfl <;> rfl

theorem Stack.ne_nil (h : Stack rooted stack) : ∀ part ∈ stack, part ≠ [] := by
  induction h with
  | nil => exact fun _ h => absurd h List.not_mem_nil
  | up hroot hup h ih => exact List.forall_mem_cons.mpr ⟨List.cons_ne_nil _ _, ih⟩
  | name hpart h ih => exact List.forall_mem_cons.mpr ⟨hpart.1, ih⟩

theorem head_join (h : IsResolved rooted parts) :
    (Text.join [slash] parts).head? ≠ some slash := by
  cases parts with
  | nil => simp [Text.join]
  | cons part parts =>
    obtain ⟨rest, hjoin⟩ := Text.prefix_join [slash] part parts
    have hne : part ≠ [] := h.stack.ne_nil part (by simp)
    obtain ⟨c, r, rfl⟩ := List.exists_cons_of_ne_nil hne
    rw [← hjoin]
    intro hhead
    obtain rfl := Option.some.inj hhead
    exact h.no_slash _ List.mem_cons_self List.mem_cons_self

theorem resolve_split_join (h : IsResolved rooted parts) :
    resolve rooted (Text.split slash (Text.join [slash] parts)) = parts := by
  by_cases hparts : parts = []
  · subst hparts
    rfl
  · rw [Text.split_join hparts h.no_slash, resolve_eq_self h]

/-- The empty components in front do not count. -/
theorem resolve_split_root {start : Text} (hstart : IsRoot start) (rest : Text) :
    resolve rooted (Text.split slash (start ++ rest)) = resolve rooted (Text.split slash rest) := by
  rcases hstart with rfl | rfl | rfl
  · rfl
  · exact resolve_cons_nil _
  · exact resolve_cons_nil _

/-! ## Normal forms -/

/-- A root with components behind it, or a dot if there is nothing. -/
def spelled (start : Text) (parts : List Text) : Text :=
  match start ++ Text.join [slash] parts with
  | [] => "."
  | out => out

theorem spelled_of_eq_nil {start : Text} (h : start ++ Text.join [slash] parts = []) :
    spelled start parts = "." := by
  unfold spelled
  rw [h]

theorem spelled_of_ne_nil {start : Text} (h : start ++ Text.join [slash] parts ≠ []) :
    spelled start parts = start ++ Text.join [slash] parts := by
  unfold spelled
  split
  · next hnil => exact absurd hnil h
  · rfl

theorem canonical_of_ne_nil {p : Text} (h : p ≠ []) :
    canonical p = spelled (root (fold p))
      (resolve (root (fold p) ≠ []) (Text.split slash (fold p))) :=
  if_neg h

theorem canonical_ne_nil {p : Text} (h : p ≠ []) : canonical p ≠ [] := by
  rw [canonical_of_ne_nil h]
  unfold spelled
  split
  · decide
  · next hout => exact hout

/-- Only what is left of a path when backslashes count as slashes matters. -/
theorem canonical_fold (p : Text) : canonical (fold p) = canonical p := by
  by_cases hp : p = []
  · rw [hp]
    rfl
  have hne : fold p ≠ [] := fun h => hp (List.map_eq_nil_iff.mp h)
  rw [canonical_of_ne_nil hne, canonical_of_ne_nil hp, fold_eq_self (backslash_not_mem_fold p)]

theorem canonical_spelled {start : Text} (hstart : IsRoot start)
    (h : IsResolved (start ≠ []) parts) : canonical (spelled start parts) = spelled start parts := by
  by_cases hne : start ++ Text.join [slash] parts = []
  · -- A dot has one component, and it is none that stays.
    rw [spelled_of_eq_nil hne]
    decide
  · have hfold : fold (start ++ Text.join [slash] parts) = start ++ Text.join [slash] parts := by
      refine fold_eq_self fun hmem => ?_
      rcases List.mem_append.mp hmem with hmem | hmem
      · rcases hstart with rfl | rfl | rfl <;> exact absurd hmem (by decide)
      · exact h.backslash_not_mem_join hmem
    have hroot : root (start ++ Text.join [slash] parts) = start := root_append hstart (head_join h)
    rw [spelled_of_ne_nil hne, canonical_of_ne_nil hne, hfold, hroot, resolve_split_root hstart,
      resolve_split_join h, spelled_of_ne_nil hne]

/-- A canonical spelling stays as it is. -/
theorem canonical_canonical (p : Text) : canonical (canonical p) = canonical p := by
  by_cases hp : p = []
  · rw [hp]
    rfl
  · rw [canonical_of_ne_nil hp]
    exact canonical_spelled (isRoot_root _) (isResolved_resolve p)

/-! ## Surrogates -/

theorem fold_unpaired {p : Text} (h : p.Unpaired) : (fold p).Unpaired := by
  refine (List.isChain_map _).mpr (h.imp fun c d hcd => ?_)
  rintro ⟨hc, hd⟩
  split_ifs at hc hd
  · exact absurd hc (by decide)
  · exact absurd hc (by decide)
  · exact absurd hd (by decide)
  · exact hcd ⟨hc, hd⟩

/-- Taking components out brings no surrogates together. -/
theorem canonical_unpaired {p : Text} (h : p.Unpaired) : (canonical p).Unpaired := by
  by_cases hp : p = []
  · rw [hp]
    exact Text.unpaired_nil
  · rw [canonical_of_ne_nil hp]
    have hroot := isRoot_root (fold p)
    generalize root (fold p) = start at hroot
    have hparts : ∀ part ∈ resolve (start ≠ []) (Text.split slash (fold p)), part.Unpaired := by
      intro part hpart
      rw [resolve, List.mem_reverse] at hpart
      have hmem := (mem_foldl_push hpart).resolve_left List.not_mem_nil
      exact Text.unpaired_of_isInfix (Text.infix_of_mem_split hmem) (fold_unpaired h)
    generalize resolve (start ≠ []) (Text.split slash (fold p)) = parts at hparts
    have hslash : slash.isSurrogate = false := by decide
    have hjoin : (start ++ Text.join [slash] parts).Unpaired := by
      have hrest : (Text.join [slash] parts).Unpaired := Text.unpaired_join hslash hparts
      have hcons : ∀ {t : Text}, t.Unpaired → Text.Unpaired (slash :: t) :=
        Text.unpaired_append_cons hslash Text.unpaired_nil
      rcases hroot with rfl | rfl | rfl
      · exact hrest
      · exact hcons hrest
      · exact hcons (hcons hrest)
    unfold spelled
    split
    · exact Text.unpaired_of_isEncodable (by decide)
    · next hout => exact hjoin

/-! ## Characters -/

section

variable {q : CodePoint → Bool} (hslash : q slash)
include hslash

theorem all_fold {p : Text} (h : p.all q) : (fold p).all q := by
  rw [fold, List.all_map, List.all_eq_true]
  intro c hc
  dsimp only [Function.comp_apply]
  split_ifs
  · exact hslash
  · exact List.all_eq_true.mp h c hc

/-- A canonical spelling has no characters but those of the path, slashes, and a dot. -/
theorem all_canonical (hdot : q (.ofChar '.')) {p : Text} (h : p.all q) : (canonical p).all q := by
  by_cases hp : p = []
  · rw [hp]
    rfl
  · rw [canonical_of_ne_nil hp, spelled]
    have hroot : (root (fold p)).all q := by
      rcases isRoot_root (fold p) with hroot | hroot | hroot <;> simp [hroot, hslash]
    have hjoin : (Text.join [slash] (resolve (root (fold p) ≠ []) (Text.split slash (fold p)))).all q := by
      refine Text.all_join (by simp [hslash]) fun part hpart => ?_
      rw [resolve, List.mem_reverse] at hpart
      have hmem := (mem_foldl_push hpart).resolve_left List.not_mem_nil
      exact Text.all_of_subset (Text.infix_of_mem_split hmem).subset (all_fold hslash h)
    split
    · simp [Text.ofString, hdot]
    · rw [List.all_append, hroot, hjoin]
      rfl

end

end Findings.Path
