import Findings.Proofs.Path.Joining

/-!
# The spellings of a path

`NormalForm` says what a canonical path looks like, without resolving anything. The components that stay are
steps up, none behind a root, and then names (`isResolved_iff`); so a canonical path is in normal form
(`normalForm_canonical`), and a path in normal form is its own canonical spelling
(`NormalForm.canonical_eq`).

Two kinds of changes lead to the same canonical path: another separator in the place of one
(`Respelled.canonical_eq`), and components put in behind a separator that leave every stack as it is
(`canonical_insert`): a dot, nothing, or a name and the step up from it.
-/

namespace Findings.Path

variable {rooted : Bool} {parts : List Text} {p : Text}

/-! ## Steps up and names -/

/-- A name, and no separator in it. -/
structure IsComponentName (part : Text) : Prop where
  name : IsName part
  no_slash : slash ∉ part
  no_backslash : backslash ∉ part

theorem stack_append_ups {names : List Text} (hnames : ∀ part ∈ names, IsName part) {steps : Nat}
    (hroot : rooted = true → steps = 0) : Stack rooted (names ++ List.replicate steps Path.up) := by
  induction names with
  | nil =>
    induction steps with
    | zero => exact .nil
    | succ steps ih =>
      have hfalse : rooted = false := by
        cases rooted with
        | false => rfl
        | true => exact absurd (hroot rfl) (Nat.succ_ne_zero steps)
      rw [List.nil_append, List.replicate_succ]
      exact .up hfalse (fun part hpart => List.eq_of_mem_replicate hpart)
        (ih fun h => absurd (hfalse.symm.trans h) Bool.false_ne_true)
  | cons part names ih =>
    rw [List.forall_mem_cons] at hnames
    exact .name hnames.1 (ih hnames.2)

/-- Components that stay are names with steps up below them. -/
theorem Stack.eq_append_ups {stack : List Text} (h : Stack rooted stack) :
    ∃ names steps, stack = names ++ List.replicate steps Path.up ∧ (rooted = true → steps = 0) ∧
      ∀ part ∈ names, IsName part := by
  induction h with
  | nil => exact ⟨[], 0, rfl, fun _ => rfl, fun _ h => absurd h List.not_mem_nil⟩
  | @up stack hroot hup _ _ =>
    refine ⟨[], stack.length + 1, ?_, fun h => absurd (hroot.symm.trans h) Bool.false_ne_true,
      fun _ h => absurd h List.not_mem_nil⟩
    rw [List.nil_append, List.replicate_succ, ← List.eq_replicate_of_mem hup]
  | @name part stack hpart _ ih =>
    obtain ⟨names, steps, rfl, hroot, hnames⟩ := ih
    exact ⟨part :: names, steps, rfl, hroot, List.forall_mem_cons.mpr ⟨hpart, hnames⟩⟩

/-- Resolved components are steps up, none behind a root, and names after them. -/
theorem isResolved_iff : IsResolved rooted parts ↔
    ∃ steps names, parts = List.replicate steps up ++ names ∧ (rooted = true → steps = 0) ∧
      ∀ part ∈ names, IsComponentName part := by
  constructor
  · intro h
    obtain ⟨names, steps, hstack, hroot, hnames⟩ := h.stack.eq_append_ups
    have hparts : parts = List.replicate steps up ++ names.reverse := by
      rw [← List.reverse_reverse parts, hstack, List.reverse_append, List.reverse_replicate]
    refine ⟨steps, names.reverse, hparts, hroot, fun part hpart => ?_⟩
    have hmem : part ∈ parts := hparts ▸ List.mem_append_right _ hpart
    exact ⟨hnames part (List.mem_reverse.mp hpart), h.no_slash part hmem, h.no_backslash part hmem⟩
  · rintro ⟨steps, names, rfl, hroot, hnames⟩
    have hups : ∀ part ∈ List.replicate steps up, slash ∉ part ∧ backslash ∉ part := by
      intro part hpart
      rw [List.eq_of_mem_replicate hpart]
      decide
    constructor
    · rw [List.reverse_append, List.reverse_replicate]
      exact stack_append_ups (fun part hpart => (hnames part (List.mem_reverse.mp hpart)).name) hroot
    · exact List.forall_mem_append.mpr
        ⟨fun part hpart => (hups part hpart).1, fun part hpart => (hnames part hpart).no_slash⟩
    · exact List.forall_mem_append.mpr
        ⟨fun part hpart => (hups part hpart).2, fun part hpart => (hnames part hpart).no_backslash⟩

/-! ## Normal forms -/

/-- What a canonical path looks like, if it is not empty: a dot; one slash or two, and names behind them; or
steps up and names, not both missing. Components stand apart by single slashes. -/
inductive NormalForm : Text → Prop where
  | dot : NormalForm "."
  | rooted {start : Text} {names : List Text} (hstart : start = [slash] ∨ start = [slash, slash])
      (hnames : ∀ part ∈ names, IsComponentName part) : NormalForm (start ++ Text.join [slash] names)
  | relative {steps : Nat} {names : List Text} (hne : List.replicate steps up ++ names ≠ [])
      (hnames : ∀ part ∈ names, IsComponentName part) :
      NormalForm (Text.join [slash] (List.replicate steps up ++ names))

theorem normalForm_spelled {start : Text} (hstart : IsRoot start)
    (h : IsResolved (start ≠ []) parts) : NormalForm (spelled start parts) := by
  obtain ⟨steps, names, rfl, hroot, hnames⟩ := isResolved_iff.mp h
  rcases hstart with rfl | hstart
  · by_cases hne : List.replicate steps up ++ names = []
    · rw [hne]
      exact .dot
    · rw [spelled_of_ne_nil (h.join_ne_nil hne)]
      exact .relative hne hnames
  · have hne : start ≠ [] := by rcases hstart with rfl | rfl <;> simp
    obtain rfl := hroot (decide_eq_true hne)
    rw [spelled_of_ne_nil (List.append_ne_nil_of_left_ne_nil hne _)]
    exact .rooted hstart hnames

theorem normalForm_canonical (h : p ≠ []) : NormalForm (canonical p) := by
  rw [canonical_of_ne_nil h]
  exact normalForm_spelled (isRoot_root _) (isResolved_resolve p)

/-- A path in normal form is not empty, and it is its own canonical spelling. -/
theorem NormalForm.canonical_eq (h : NormalForm p) : p ≠ [] ∧ canonical p = p := by
  cases h with
  | dot => decide
  | @rooted start names hstart hnames =>
    have hne : start ≠ [] := by rcases hstart with rfl | rfl <;> simp
    have hspelled : Spelled start names (start ++ Text.join [slash] names) :=
      ⟨.inr hstart, isResolved_iff.mpr ⟨0, names, rfl, fun _ => rfl, hnames⟩, rfl⟩
    have happend := List.append_ne_nil_of_left_ne_nil hne (Text.join [slash] names)
    exact ⟨happend, hspelled.canonical_eq happend⟩
  | @relative steps names hne hnames =>
    have hresolved : IsResolved false (List.replicate steps up ++ names) :=
      isResolved_iff.mpr ⟨steps, names, rfl, fun h => absurd h Bool.false_ne_true, hnames⟩
    have hspelled : Spelled [] _ (Text.join [slash] (List.replicate steps up ++ names)) :=
      ⟨.inl rfl, hresolved, rfl⟩
    have hjoin := hresolved.join_ne_nil hne
    exact ⟨hjoin, hspelled.canonical_eq hjoin⟩

theorem canonical_eq_self_iff : canonical p = p ↔ p = [] ∨ NormalForm p := by
  constructor
  · intro h
    by_cases hp : p = []
    · exact .inl hp
    · exact .inr (h ▸ normalForm_canonical hp)
  · rintro (rfl | h)
    · rfl
    · exact h.canonical_eq.2

/-! ## Other separators -/

def IsSeparator (c : CodePoint) : Prop := c = slash ∨ c = backslash

instance (c : CodePoint) : Decidable (IsSeparator c) := inferInstanceAs (Decidable (_ ∨ _))

theorem fold_cons_of_isSeparator {c : CodePoint} (h : IsSeparator c) (p : Text) :
    fold (c :: p) = slash :: fold p := by
  rcases h with rfl | rfl <;> rfl

/-- The same path but for separators, each of which may stand in the place of the other. -/
def Respelled : Text → Text → Prop :=
  List.Forall₂ fun c d => c = d ∨ (IsSeparator c ∧ IsSeparator d)

theorem Respelled.fold_eq {q : Text} (h : Respelled p q) : fold p = fold q := by
  induction h with
  | nil => rfl
  | cons hcd _ ih =>
    rcases hcd with rfl | ⟨hc, hd⟩
    · rw [fold, fold, List.map_cons, List.map_cons, ← fold, ← fold, ih]
    · rw [fold_cons_of_isSeparator hc, fold_cons_of_isSeparator hd, ih]

theorem Respelled.canonical_eq {q : Text} (h : Respelled p q) : canonical q = canonical p := by
  rw [← canonical_fold q, ← h.fold_eq, canonical_fold]

/-! ## Components put in -/

/-- Components that leave every stack as it is. -/
def Neutral (parts : List Text) : Prop :=
  ∀ (rooted : Bool) (stack : List Text), parts.foldl (push rooted) stack = stack

theorem neutral_skip {part : Text} (h : part = [] ∨ part = Text.ofString ".") : Neutral [part] :=
  fun _ _ => push_skip h

theorem neutral_name_up {name : Text} (h : IsName name) : Neutral [name, up] := by
  intro rooted stack
  rw [List.foldl_cons, List.foldl_cons, List.foldl_nil, push_name h, push_up_cons, if_neg h.2.2]

/-- Each component with a slash behind it. -/
def withSlashes (parts : List Text) : Text := parts.flatMap (· ++ [slash])

theorem split_withSlashes_append (h : ∀ part ∈ parts, slash ∉ part) (rest : Text) :
    Text.split slash (withSlashes parts ++ rest) = parts ++ Text.split slash rest := by
  induction parts with
  | nil => rfl
  | cons part parts ih =>
    rw [List.forall_mem_cons] at h
    rw [withSlashes, List.flatMap_cons, List.append_assoc, List.append_assoc, List.singleton_append,
      Text.split_append_sep _ h.1]
    exact congrArg _ (ih h.2)

theorem fold_withSlashes (h : ∀ part ∈ parts, backslash ∉ part) :
    fold (withSlashes parts) = withSlashes parts := by
  refine fold_eq_self fun hmem => ?_
  obtain ⟨part, hpart, hmem⟩ := List.mem_flatMap.mp hmem
  rcases List.mem_append.mp hmem with hmem | hmem
  · exact h part hpart hmem
  · exact absurd hmem (by decide)

theorem exists_fold_ne_slash {u : Text} (h : ∃ c ∈ u, ¬IsSeparator c) : ∃ c ∈ fold u, c ≠ slash := by
  obtain ⟨c, hc, hsep⟩ := h
  rw [IsSeparator, not_or] at hsep
  exact ⟨c, List.mem_map.mpr ⟨c, hc, if_neg hsep.2⟩, hsep.1⟩

/-- Neutral components may be put in behind a separator, if more than separators stand in front of it. -/
theorem canonical_insert {u : Text} (hu : ∃ c ∈ u, ¬IsSeparator c) {last : CodePoint}
    (hlast : u.getLast? = some last) (hsep : IsSeparator last) (hneutral : Neutral parts)
    (hslash : ∀ part ∈ parts, slash ∉ part) (hback : ∀ part ∈ parts, backslash ∉ part) (v : Text) :
    canonical (u ++ (withSlashes parts ++ v)) = canonical (u ++ v) := by
  obtain ⟨front, rfl⟩ := List.getLast?_eq_some_iff.mp hlast
  have hfront : ∃ c ∈ front, ¬IsSeparator c := by
    obtain ⟨c, hc, hne⟩ := hu
    refine ⟨c, (List.mem_append.mp hc).resolve_right fun hmem => hne ?_, hne⟩
    rwa [List.mem_singleton.mp hmem]
  have hmore := exists_fold_ne_slash hfront
  -- With a slash for the separator, what follows goes on with the components in front.
  have hfold : ∀ t, canonical (front ++ [last] ++ t) = canonical (front ++ slash :: t) := by
    intro t
    refine Respelled.canonical_eq (p := front ++ slash :: t) ?_
    rw [List.append_assoc]
    refine List.rel_append (List.forall₂_same.mpr fun c _ => .inl rfl) (.cons (.inr ⟨.inl rfl, hsep⟩) ?_)
    exact List.forall₂_same.mpr fun c _ => .inl rfl
  rw [hfold, hfold, canonical_append hmore, canonical_append hmore]
  congr 1
  have hsplit : Text.split slash (fold (withSlashes parts ++ v)) =
      parts ++ Text.split slash (fold v) := by
    rw [fold, List.map_append, ← fold, ← fold, fold_withSlashes hback,
      split_withSlashes_append hslash]
  rw [hsplit, resolve, resolve, List.foldl_append, List.foldl_append, List.foldl_append,
    hneutral]

/-- A canonical path is empty just for the empty path; else it is in normal form, without backslashes. The
paths in this form and the empty one, and no others, are their own canonical spelling. A path has the same
canonical spelling as before with separators in the place of others, and with a dot, a slash, or a name
and the step up from it put in behind a separator that has more than separators in front of it. -/
theorem canonical_normal_form (p : Text) :
    (canonical p = [] ↔ p = []) ∧
    (p ≠ [] → backslash ∉ canonical p ∧ NormalForm (canonical p)) ∧
    (canonical p = p ↔ p = [] ∨ NormalForm p) ∧
    canonical (canonical p) = canonical p ∧
    (∀ u v last, p = u ++ v → u.getLast? = some last → IsSeparator last → (∃ c ∈ u, ¬IsSeparator c) →
      canonical (u ++ "./" ++ v) = canonical p ∧ canonical (u ++ "/" ++ v) = canonical p ∧
      ∀ name, IsComponentName name → canonical (u ++ (name ++ "/../") ++ v) = canonical p) ∧
    ∀ q, Respelled p q → canonical q = canonical p := by
  refine ⟨⟨fun h => ?_, ?_⟩, fun h => ⟨backslash_not_mem_canonical p, normalForm_canonical h⟩,
    canonical_eq_self_iff, canonical_canonical p, ?_, fun q hq => hq.canonical_eq⟩
  · by_contra hp
    exact canonical_ne_nil hp h
  · rintro rfl
    rfl
  · rintro u v last rfl hlast hsep hu
    refine ⟨?_, ?_, fun name hname => ?_⟩
    · have hdot : Neutral [Text.ofString "."] := neutral_skip (.inr rfl)
      have hwritten := canonical_insert hu hlast hsep hdot (by decide) (by decide) v
      rwa [← List.append_assoc] at hwritten
    · have hempty : Neutral [[]] := neutral_skip (.inl rfl)
      have hwritten := canonical_insert hu hlast hsep hempty (by decide) (by decide) v
      rwa [← List.append_assoc] at hwritten
    · have hstep := canonical_insert hu hlast hsep (neutral_name_up hname.name)
        (List.forall_mem_cons.mpr ⟨hname.no_slash, by decide⟩)
        (List.forall_mem_cons.mpr ⟨hname.no_backslash, by decide⟩) v
      have hwritten : withSlashes [name, up] = name ++ "/../" := by simp [withSlashes]; rfl
      rwa [hwritten, ← List.append_assoc] at hstep

/-- A path with both separators: a folder entered and left again, and the separators exchanged. -/
theorem mixed_separators :
    NormalForm (canonical "src\\lib/./a.c") ∧
      canonical "src\\old/../lib/./a.c" = canonical "src\\lib/./a.c" ∧
      canonical "src/lib\\.\\a.c" = canonical "src\\lib/./a.c" ∧
      canonical "src\\lib/./a.c" = Text.ofString "src/lib/a.c" := by
  obtain ⟨-, hform, -, -, hinsert, hrespelled⟩ := canonical_normal_form "src\\lib/./a.c"
  have hname : IsComponentName "old" := ⟨by unfold IsName; decide, by decide, by decide⟩
  obtain ⟨-, -, hstep⟩ := hinsert "src\\" "lib/./a.c" backslash rfl (by decide) (by decide) (by decide)
  exact ⟨(hform (by decide)).2, hstep "old" hname, hrespelled _ (by unfold Respelled; decide), by decide⟩

end Findings.Path
