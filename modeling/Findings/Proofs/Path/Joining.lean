import Findings.Proofs.Path.NormalForm
import Mathlib.Data.List.TakeWhile

/-!
# Joining canonical paths

`Spelled start parts p`: `p` is a root with components that stay. All canonical paths are spelled so but the
empty one and the dot (`spelled_of_canonical`), and what is spelled so is canonical (`Spelled.canonical_eq`).

Where a path spelled so goes on behind a slash, the slash either ends the root or parts two components
(`Spelled.cut`). So what follows is canonical in its own right (`canonical_below`). A path that another is
joined to may be put in canonical spelling first, unless that is a root (`canonical_join`).
-/

namespace Findings.Path

variable {rooted : Bool} {parts : List Text} {start p : Text}

/-! ## Components of parts of a path -/

theorem Stack.of_append {upper lower : List Text} (h : Stack rooted (upper ++ lower)) :
    Stack rooted upper ∧ Stack rooted lower := by
  induction upper with
  | nil => exact ⟨.nil, h⟩
  | cons part upper ih =>
    rw [List.cons_append] at h
    cases h with
    | up hroot hup h =>
      obtain ⟨hupper, hlower⟩ := ih h
      exact ⟨.up hroot (fun part hpart => hup part (List.mem_append_left lower hpart)) hupper, hlower⟩
    | name hpart h =>
      obtain ⟨hupper, hlower⟩ := ih h
      exact ⟨.name hpart hupper, hlower⟩

/-- Components that stay behind a root stay without it. -/
theorem Stack.unrooted {stack : List Text} (h : Stack rooted stack) : Stack false stack := by
  induction h with
  | nil => exact .nil
  | up _ hup _ ih => exact .up rfl hup ih
  | name hpart _ ih => exact .name hpart ih

namespace IsResolved

theorem unrooted (h : IsResolved rooted parts) : IsResolved false parts :=
  ⟨h.stack.unrooted, h.no_slash, h.no_backslash⟩

theorem of_append {before after : List Text} (h : IsResolved rooted (before ++ after)) :
    IsResolved rooted before ∧ IsResolved rooted after := by
  have hstack := h.stack
  rw [List.reverse_append] at hstack
  obtain ⟨hafter, hbefore⟩ := hstack.of_append
  exact ⟨⟨hbefore, fun part hpart => h.no_slash part (List.mem_append_left after hpart),
      fun part hpart => h.no_backslash part (List.mem_append_left after hpart)⟩,
    ⟨hafter, fun part hpart => h.no_slash part (List.mem_append_right before hpart),
      fun part hpart => h.no_backslash part (List.mem_append_right before hpart)⟩⟩

/-- A name may be put behind all components. -/
theorem concat (h : IsResolved rooted parts) {part : Text} (hname : IsName part)
    (hslash : slash ∉ part) (hback : backslash ∉ part) : IsResolved rooted (parts ++ [part]) where
  stack := by
    rw [List.reverse_append]
    exact .name hname h.stack
  no_slash := List.forall_mem_append.mpr ⟨h.no_slash, by simpa using hslash⟩
  no_backslash := List.forall_mem_append.mpr ⟨h.no_backslash, by simpa using hback⟩

theorem ne_nil (h : IsResolved rooted parts) : ∀ part ∈ parts, part ≠ [] :=
  fun part hpart => h.stack.ne_nil part (List.mem_reverse.mpr hpart)

theorem join_ne_nil (h : IsResolved rooted parts) (hparts : parts ≠ []) :
    Text.join [slash] parts ≠ [] := by
  obtain ⟨part, rest, rfl⟩ := List.exists_cons_of_ne_nil hparts
  intro hjoin
  obtain ⟨below, happend⟩ := Text.prefix_join [slash] part rest
  rw [hjoin] at happend
  exact h.ne_nil part List.mem_cons_self (List.append_eq_nil_iff.mp happend).1

theorem eq_nil_of_join (h : IsResolved rooted parts) (hjoin : Text.join [slash] parts = []) : parts = [] := by
  by_contra hparts
  exact h.join_ne_nil hparts hjoin

end IsResolved

/-! ## Spelled paths -/

/-- `p` is a root with components that stay. -/
structure Spelled (start : Text) (parts : List Text) (p : Text) : Prop where
  root : IsRoot start
  resolved : IsResolved (start ≠ []) parts
  eq : p = start ++ Text.join [slash] parts

theorem IsRoot.eq_slash (h : IsRoot start) : ∀ c ∈ start, c = slash := by
  rcases h with rfl | rfl | rfl <;> simp

theorem Spelled.canonical_eq (h : Spelled start parts p) (hp : p ≠ []) : canonical p = p := by
  have hspelled : spelled start parts = p := by
    rw [h.eq] at hp ⊢
    exact spelled_of_ne_nil hp
  rw [← hspelled]
  exact canonical_spelled h.root h.resolved

/-- A canonical path is spelled as a root with components that stay, if it is neither empty nor a dot. -/
theorem spelled_of_canonical (hne : p ≠ []) (hdot : p ≠ Text.ofString ".") (hp : canonical p = p) :
    ∃ start parts, Spelled start parts p := by
  refine ⟨_, _, isRoot_root (fold p), isResolved_resolve p, ?_⟩
  rw [canonical_of_ne_nil hne] at hp
  by_cases hout : root (fold p) ++
      Text.join [slash] (resolve (root (fold p) ≠ []) (Text.split slash (fold p))) = []
  · rw [spelled_of_eq_nil hout] at hp
    exact absurd hp.symm hdot
  · rw [spelled_of_ne_nil hout] at hp
    exact hp.symm

/-- A canonical path with a slash in it is spelled so. -/
theorem spelled_of_slash (hp : canonical p = p) (hslash : slash ∈ p) :
    ∃ start parts, Spelled start parts p := by
  refine spelled_of_canonical (List.ne_nil_of_mem hslash) ?_ hp
  rintro rfl
  exact absurd hslash (by decide)

theorem backslash_not_mem_canonical (p : Text) : backslash ∉ canonical p := by
  by_cases hne : p = []
  · simp [hne, canonical]
  intro hmem
  by_cases hdot : canonical p = Text.ofString "."
  · rw [hdot] at hmem
    exact absurd hmem (by decide)
  have hcanonical : canonical p ≠ [] := by
    rintro hnil
    rw [hnil] at hmem
    exact List.not_mem_nil hmem
  obtain ⟨start, parts, h⟩ := spelled_of_canonical hcanonical hdot (canonical_canonical p)
  rw [h.eq] at hmem
  rcases List.mem_append.mp hmem with hmem | hmem
  · exact absurd (h.root.eq_slash _ hmem) (by decide)
  · exact h.resolved.backslash_not_mem_join hmem

/-- Where a spelled path goes on behind a slash, the slash ends the root or parts two components. -/
theorem Spelled.cut {front below : Text} (h : Spelled start parts p)
    (hp : p = front ++ slash :: below) (hhead : below.head? ≠ some slash) :
    (front ++ [slash] = start ∧ below = Text.join [slash] parts) ∨
      ∃ u, u ≠ [] ∧ front = start ++ u ∧ parts = Text.split slash u ++ Text.split slash below := by
  have hfront : p = (front ++ [slash]) ++ below := by rw [hp, List.append_assoc]; rfl
  rw [h.eq, List.append_eq_append_iff] at hfront
  have hroot : ∀ {rest}, start = (front ++ [slash]) ++ rest → below = rest ++ Text.join [slash] parts →
      front ++ [slash] = start ∧ below = Text.join [slash] parts := by
    intro rest hstart hbelow
    -- More slashes of the root would stand in front of what follows.
    have hrest : rest = [] := by
      cases rest with
      | nil => rfl
      | cons c rest =>
        have hc : c = slash := h.root.eq_slash c (by simp [hstart])
        rw [hbelow, hc] at hhead
        exact absurd rfl hhead
    rw [hrest] at hstart hbelow
    exact ⟨by rw [hstart, List.append_nil], hbelow⟩
  rcases hfront with ⟨u, hu, hjoin⟩ | ⟨rest, hstart, hbelow⟩
  · rcases List.eq_nil_or_concat u with rfl | ⟨u, c, rfl⟩
    · rw [List.append_nil] at hu
      exact .inl ⟨hu, hjoin.symm⟩
    · rw [List.concat_eq_append, ← List.append_assoc] at hu
      obtain ⟨hfront, hc⟩ := List.append_inj' hu rfl
      obtain rfl : slash = c := by simpa using hc
      have hjoin' : Text.join [slash] parts = u ++ slash :: below := by rw [hjoin]; simp
      have hparts : parts ≠ [] := by
        rintro rfl
        simp [Text.join] at hjoin'
      refine .inr ⟨u, ?_, hfront, ?_⟩
      · rintro rfl
        exact head_join h.resolved (by rw [hjoin']; rfl)
      · rw [← Text.split_join hparts h.resolved.no_slash, hjoin', Text.split_append]
  · exact .inl (hroot hstart hbelow)

/-- `t` ends with a slash. -/
def EndsInSlash (t : Text) : Prop := ∃ r, t = r ++ [slash]

theorem endsInSlash_of_slashes {t : Text} (hne : t ≠ []) (h : ∀ c ∈ t, c = slash) :
    EndsInSlash t := by
  obtain ⟨r, c, rfl⟩ := (List.eq_nil_or_concat t).resolve_left hne
  obtain rfl := h c (by simp)
  exact ⟨r, List.concat_eq_append⟩

theorem EndsInSlash.of_append {t u : Text} (h : EndsInSlash (t ++ u)) (hne : u ≠ []) :
    EndsInSlash u := by
  obtain ⟨r, hr⟩ := h
  obtain ⟨w, c, rfl⟩ := (List.eq_nil_or_concat u).resolve_left hne
  rw [List.concat_eq_append, ← List.append_assoc] at hr
  obtain ⟨-, hc⟩ := List.append_inj' hr rfl
  exact ⟨w, by rw [List.concat_eq_append, hc]⟩

theorem EndsInSlash.nil_mem_split {t : Text} (h : EndsInSlash t) : [] ∈ Text.split slash t := by
  obtain ⟨r, rfl⟩ := h
  rw [Text.split_append]
  exact List.mem_append_right _ List.mem_cons_self

/-- What stands in front of a slash that parts two components is canonical, and no root. -/
theorem Spelled.front {u : Text} {after : List Text} (h : Spelled start (Text.split slash u ++ after) p)
    (hne : u ≠ []) :
    canonical (start ++ u) = start ++ u ∧ ¬IsRoot (start ++ u) ∧ ¬EndsInSlash (start ++ u) := by
  have hresolved := h.resolved.of_append.1
  have hspelled : Spelled start (Text.split slash u) (start ++ u) :=
    ⟨h.root, hresolved, by rw [Text.join_split]⟩
  have happend : start ++ u ≠ [] := List.append_ne_nil_of_right_ne_nil start hne
  -- A slash at the end would leave an empty component in front of it.
  have hend : ¬EndsInSlash (start ++ u) := fun hslash =>
    hresolved.ne_nil [] (hslash.of_append hne).nil_mem_split rfl
  exact ⟨hspelled.canonical_eq happend,
    fun hroot => hend (endsInSlash_of_slashes happend hroot.eq_slash), hend⟩

/-- What stands behind a slash of a canonical path is canonical. -/
theorem canonical_below {front below : Text} (hp : canonical p = p) (hcut : p = front ++ slash :: below)
    (hne : below ≠ []) (hhead : below.head? ≠ some slash) : canonical below = below := by
  obtain ⟨start, parts, h⟩ := spelled_of_slash hp (by simp [hcut])
  rcases h.cut hcut hhead with ⟨-, hbelow⟩ | ⟨u, -, -, hparts⟩
  · have hspelled : Spelled [] parts below := ⟨.inl rfl, h.resolved.unrooted, hbelow⟩
    exact hspelled.canonical_eq hne
  · have hresolved := (hparts ▸ h.resolved).of_append.2.unrooted
    have hspelled : Spelled [] (Text.split slash below) below :=
      ⟨.inl rfl, hresolved, (Text.join_split below).symm⟩
    exact hspelled.canonical_eq hne

/-! ## Joining -/

theorem fold_append_slash (u v : Text) : fold (u ++ slash :: v) = fold u ++ slash :: fold v := by
  have hslash : (if slash = backslash then slash else slash) = slash := by decide
  rw [fold, List.map_append, List.map_cons, hslash]
  rfl

/-- What is put behind a path that is more than slashes leaves its root. -/
theorem root_append_of_exists {u : Text} (h : ∃ c ∈ u, c ≠ slash) (rest : Text) :
    root (u ++ rest) = root u := by
  obtain ⟨c, hc, hne⟩ := h
  have hlength : (u.takeWhile (· = slash)).length ≠ u.length := by
    intro hlength
    have hall := List.takeWhile_eq_self_iff.mp
      ((List.takeWhile_prefix (p := (· = slash)) (l := u)).eq_of_length hlength)
    exact hne (of_decide_eq_true (hall c hc))
  unfold root
  rw [List.takeWhile_append, if_neg hlength]

/-- What components lead to depends on those in front only through what they lead to. -/
theorem resolve_append {before before' : List Text}
    (h : resolve rooted before = resolve rooted before') (after : List Text) :
    resolve rooted (before ++ after) = resolve rooted (before' ++ after) := by
  have hstack : before.foldl (push rooted) [] = before'.foldl (push rooted) [] :=
    List.reverse_inj.mp h
  rw [resolve, resolve, List.foldl_append, List.foldl_append, hstack]

theorem root_slash_cons_ne_nil (t : Text) : root (slash :: t) ≠ [] := by
  unfold root
  rw [List.takeWhile_cons_of_pos (by decide), List.length_cons]
  split <;> simp_all

/-- A path of slashes leads to a root. -/
theorem isRoot_canonical {u : Text} (h : ∀ c ∈ fold u, c = slash) : IsRoot (canonical u) := by
  by_cases hu : u = []
  · rw [hu]
    exact .inl rfl
  have hparts : resolve (root (fold u) ≠ []) (Text.split slash (fold u)) = [] := by
    generalize (decide (root (fold u) ≠ [])) = rooted
    generalize fold u = t at h
    induction t with
    | nil => rfl
    | cons c t ih =>
      rw [List.forall_mem_cons] at h
      rw [Text.split, if_pos h.1, resolve_cons_nil]
      exact ih h.2
  have hroot : root (fold u) ≠ [] := by
    obtain ⟨c, t, ht⟩ := List.exists_cons_of_ne_nil
      (show fold u ≠ [] from fun hnil => hu (List.map_eq_nil_iff.mp hnil))
    obtain rfl : c = slash := h c (by simp [ht])
    rw [ht]
    exact root_slash_cons_ne_nil t
  rw [canonical_of_ne_nil hu, hparts]
  have hspelled : spelled (root (fold u)) [] = root (fold u) := by
    rw [spelled_of_ne_nil (by simpa [Text.join] using hroot)]
    simp [Text.join]
  rw [hspelled]
  exact isRoot_root _

/-- The components of a normal form lead where those that it was made of lead. -/
theorem foldl_push_spelled (hstart : IsRoot start) (h : IsResolved (start ≠ []) parts) (below : List Text) :
    (Text.split slash (spelled start parts)).foldl (push rooted) below = parts.foldl (push rooted) below := by
  by_cases hne : start ++ Text.join [slash] parts = []
  · obtain ⟨rfl, hjoin⟩ := List.append_eq_nil_iff.mp hne
    obtain rfl := h.eq_nil_of_join hjoin
    -- The one component of a dot leads nowhere.
    exact (push_skip (.inr rfl) : push rooted below _ = below)
  · have hjoin : (Text.split slash (Text.join [slash] parts)).foldl (push rooted) below =
        parts.foldl (push rooted) below := by
      by_cases hparts : parts = []
      · subst hparts
        exact (push_skip (.inl rfl) : push rooted below _ = below)
      · rw [Text.split_join hparts h.no_slash]
    rw [spelled_of_ne_nil hne, ← hjoin]
    rcases hstart with rfl | rfl | rfl <;> rfl

/-- A normal form has the root and leads to the components that it was made of. -/
theorem parts_spelled (hstart : IsRoot start) (h : IsResolved (start ≠ []) parts) :
    root (spelled start parts) = start ∧
      resolve (start ≠ []) (Text.split slash (spelled start parts)) = parts := by
  constructor
  · by_cases hne : start ++ Text.join [slash] parts = []
    · rw [spelled_of_eq_nil hne, (List.append_eq_nil_iff.mp hne).1]
      rfl
    · rw [spelled_of_ne_nil hne, root_append hstart (head_join h)]
  · rw [resolve, foldl_push_spelled hstart h, ← resolve, resolve_eq_self h]

/-- A path put behind one that is more than slashes goes on with its components. -/
theorem canonical_append {u : Text} (h : ∃ c ∈ fold u, c ≠ slash) (v : Text) :
    canonical (u ++ slash :: v) = spelled (root (fold u))
      (resolve (root (fold u) ≠ []) (Text.split slash (fold u) ++ Text.split slash (fold v))) := by
  have hne : u ++ slash :: v ≠ [] := by simp
  rw [canonical_of_ne_nil hne, fold_append_slash, root_append_of_exists h, Text.split_append]

theorem exists_of_not_isRoot {u : Text} (h : ¬IsRoot (canonical u)) : ∃ c ∈ fold u, c ≠ slash := by
  by_contra hnone
  exact h (isRoot_canonical fun c hc => by_contra fun hne => hnone ⟨c, hc, hne⟩)

theorem fold_canonical (p : Text) : fold (canonical p) = canonical p :=
  fold_eq_self (backslash_not_mem_canonical p)

/-- A path that another is joined to may be put in canonical spelling first, unless that is a root. -/
theorem canonical_join {u : Text} (h : ¬IsRoot (canonical u)) (v : Text) :
    canonical (canonical u ++ slash :: v) = canonical (u ++ slash :: v) := by
  have hne : u ≠ [] := by
    rintro rfl
    exact h (.inl rfl)
  have hcanonical : ¬IsRoot (canonical (canonical u)) := by rwa [canonical_canonical]
  obtain ⟨hroot, hresolve⟩ := parts_spelled (isRoot_root (fold u)) (isResolved_resolve u)
  rw [← canonical_of_ne_nil hne] at hroot hresolve
  rw [canonical_append (exists_of_not_isRoot h), canonical_append (exists_of_not_isRoot hcanonical),
    fold_canonical, hroot, resolve_append hresolve]

/-- A slash at the end does not count. -/
theorem canonical_concat_slash {u : Text} (h : ∃ c ∈ fold u, c ≠ slash) :
    canonical (u ++ [slash]) = canonical u := by
  have hne : u ≠ [] := by
    rintro rfl
    obtain ⟨c, hc, -⟩ := h
    exact List.not_mem_nil hc
  have hempty : resolve (root (fold u) ≠ []) (Text.split slash (fold u) ++ [[]]) =
      resolve (root (fold u) ≠ []) (Text.split slash (fold u)) := by
    rw [resolve, resolve, List.foldl_append, List.foldl_cons, push_skip (.inl rfl), List.foldl_nil]
  rw [canonical_append h, canonical_of_ne_nil hne]
  exact congrArg _ hempty

end Findings.Path
