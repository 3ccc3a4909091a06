import Findings.Proofs.Path.Components
import Findings.Proofs.Path.Spellings

/-!
# Directories on a drive

Resolving knows the root of slashes only; a drive is a component like others. So the steps up that a relative
path starts with take components of the directory away, the drive last, and those that are left over stay
(`resolve_steps_up`). Components that stay are an absolute path if they are a drive and something behind it
(`isAbsolute_join_iff`). Together: a relative path seen from an absolute directory on a drive is absolute just
if `StaysAbsolute` says so (`isAbsolute_canonical_drive_iff`). From a directory that starts with a slash it is
always absolute (`isAbsolute_canonical_of_slash`).
-/

namespace Findings.Path

variable {rooted : Bool} {stack names after parts : List Text} {d p : Text}

/-! ## Steps up -/

theorem foldl_push_names (h : ∀ part ∈ names, IsName part) :
    names.foldl (push rooted) stack = names.reverse ++ stack := by
  induction names generalizing stack with
  | nil => rfl
  | cons part names ih =>
    rw [List.forall_mem_cons] at h
    rw [List.foldl_cons, push_name h.1, ih h.2, List.reverse_cons, List.append_assoc]
    rfl

/-- Without a root each step up takes a name away, and where no name is left it stays. -/
theorem foldl_push_ups (h : ∀ part ∈ stack, IsName part) (steps : Nat) :
    (List.replicate steps up).foldl (push false) stack =
      List.replicate (steps - stack.length) up ++ stack.drop steps := by
  induction stack generalizing steps with
  | nil =>
    have hups : Stack false ([] ++ List.replicate steps up) := stack_append_ups (by simp) (by simp)
    simpa using foldl_push_of_stack hups
  | cons part stack ih =>
    rw [List.forall_mem_cons] at h
    cases steps with
    | zero => simp
    | succ steps =>
      rw [List.replicate_succ, List.foldl_cons, push_up_cons, if_neg h.1.2.2, ih h.2]
      simp

/-- Behind names, steps up take away as many of them as there are. -/
theorem resolve_steps_up (hnames : ∀ part ∈ names, IsName part) (hafter : ∀ part ∈ after, IsName part)
    (steps : Nat) :
    resolve false (names ++ (List.replicate steps up ++ after)) =
      names.take (names.length - steps) ++ (List.replicate (steps - names.length) up ++ after) := by
  have hstack : ∀ part ∈ names.reverse, IsName part := fun part hpart =>
    hnames part (List.mem_reverse.mp hpart)
  rw [resolve, List.foldl_append, foldl_push_names hnames, List.append_nil, List.foldl_append,
    foldl_push_ups hstack, foldl_push_names hafter]
  simp [List.drop_reverse]

/-- How many steps up a path starts with. -/
def stepsUp (p : Text) : Nat := ((components p).takeWhile (· = up)).length

/-- The components behind the steps up. -/
def behindSteps (p : Text) : List Text := (components p).dropWhile (· = up)

theorem steps_of_components {steps : Nat}
    (h : components p = List.replicate steps up ++ names) (hnames : ∀ part ∈ names, IsName part) :
    stepsUp p = steps ∧ behindSteps p = names := by
  have hups : ∀ part ∈ List.replicate steps up, decide (part = up) = true := fun part hpart =>
    decide_eq_true (List.eq_of_mem_replicate hpart)
  have hstop : names.takeWhile (· = up) = [] ∧ names.dropWhile (· = up) = names := by
    cases names with
    | nil => exact ⟨rfl, rfl⟩
    | cons part names =>
      have hpart : ¬decide (part = up) = true := by
        simpa using (hnames part List.mem_cons_self).2.2
      exact ⟨List.takeWhile_cons_of_neg hpart, List.dropWhile_cons_of_neg hpart⟩
  unfold stepsUp behindSteps
  rw [h, List.takeWhile_append_of_pos hups, List.dropWhile_append_of_pos hups, hstop.1, hstop.2]
  simp

/-! ## Absolute paths in components -/

/-- A letter and a colon, and nothing else. -/
def IsDrive (part : Text) : Prop := hasDrive part ∧ part.length = 2

instance (part : Text) : Decidable (IsDrive part) := inferInstanceAs (Decidable (_ ∧ _))

theorem not_isDrive_up : ¬IsDrive up := by decide

/-- A slash stands in third place behind a drive just if the first component is the drive. -/
theorem isDrive_iff {first : Text} (hslash : slash ∉ first) (hne : first ≠ []) (rest : Text) :
    (hasDrive (first ++ slash :: rest) ∧ ((first ++ slash :: rest).drop 2).head? = some slash) ↔
      IsDrive first := by
  match first with
  | [] => exact absurd rfl hne
  | [c] =>
    have hcolon : slash ≠ .ofChar ':' := by decide
    simp [IsDrive, hasDrive, hcolon]
  | [c, c'] => simp [IsDrive, hasDrive]
  | c :: c' :: c'' :: first =>
    have hthird : c'' ≠ slash := fun hc => hslash (by simp [hc])
    simp [IsDrive, hthird]

/-- Components that stay are absolute if they are a drive and something behind it. -/
theorem isAbsolute_join_iff (h : IsResolved rooted parts) :
    isAbsolute (Text.join [slash] parts) ↔ 2 ≤ parts.length ∧ ∃ drive ∈ parts.head?, IsDrive drive := by
  rw [isAbsolute_iff h.backslash_not_mem_join, or_iff_right (head_join h)]
  match parts, h with
  | [], _ => simp [Text.join, hasDrive]
  | [part], h =>
    -- A single component has no slash in third place.
    have hthird : (part.drop 2).head? ≠ some slash := fun hhead =>
      h.no_slash part List.mem_cons_self (List.mem_of_mem_drop (List.mem_of_mem_head? hhead))
    simpa [Text.join] using fun _ => hthird
  | first :: second :: rest, h =>
    have hjoin : Text.join [slash] (first :: second :: rest) =
        first ++ slash :: Text.join [slash] (second :: rest) := by
      rw [Text.join_cons [slash] first (List.cons_ne_nil second rest)]
      simp
    have hslash := h.no_slash first List.mem_cons_self
    rw [hjoin, isDrive_iff hslash (h.ne_nil first List.mem_cons_self)]
    simp

theorem isAbsolute_spelled (parts : List Text) :
    isAbsolute (spelled [] parts) ↔ isAbsolute (Text.join [slash] parts) := by
  by_cases hne : [] ++ Text.join [slash] parts = []
  · have hjoin : Text.join [slash] parts = [] := hne
    rw [spelled_of_eq_nil hne, hjoin]
    decide
  · rw [spelled_of_ne_nil hne]
    rfl

/-! ## Joining to a directory on a drive -/

/-- A canonical path without a root is its components, if it is neither empty nor a dot. -/
theorem components_of_relative (hp : canonical p = p) (hne : p ≠ []) (hdot : p ≠ Text.ofString ".")
    (hhead : p.head? ≠ some slash) :
    IsResolved false (components p) ∧ p = Text.join [slash] (components p) := by
  obtain ⟨start, hspelled⟩ := exists_spelled_components hp hne hdot
  obtain rfl : start = [] := by
    rcases hspelled.root with rfl | rfl | rfl
    · rfl
    · exact absurd (congrArg List.head? hspelled.eq) hhead
    · exact absurd (congrArg List.head? hspelled.eq) hhead
  exact ⟨hspelled.resolved, hspelled.eq⟩

/-- An absolute directory that starts with no slash is a drive and names behind it. -/
theorem exists_drive (hd : canonical d = d) (habsolute : isAbsolute d) (hhead : d.head? ≠ some slash) :
    d = Text.join [slash] (components d) ∧ (∀ part ∈ components d, IsComponentName part) ∧
      ∃ drive second rest, components d = drive :: second :: rest ∧ IsDrive drive := by
  have hdot : d ≠ Text.ofString "." := by
    rintro rfl
    exact absurd habsolute (by decide)
  obtain ⟨hresolved, hjoin⟩ := components_of_relative hd (ne_nil_of_isAbsolute habsolute) hdot hhead
  rw [hjoin] at habsolute
  obtain ⟨hlength, drive, hdrive, hisDrive⟩ := (isAbsolute_join_iff hresolved).mp habsolute
  obtain ⟨steps, names, hparts, -, hnames⟩ := isResolved_iff.mp hresolved
  obtain rfl : steps = 0 := by
    cases steps with
    | zero => rfl
    | succ steps =>
      rw [hparts, List.replicate_succ] at hdrive
      obtain rfl : up = drive := by simpa using hdrive
      exact absurd hisDrive not_isDrive_up
  refine ⟨hjoin, fun part hpart => hnames part (by simpa [hparts] using hpart), ?_⟩
  match hcomponents : components d with
  | [] | [_] => simp [hcomponents] at hlength
  | first :: second :: rest =>
    obtain rfl : first = drive := by simpa [hcomponents] using hdrive
    exact ⟨first, second, rest, rfl, hisDrive⟩

/-- Behind a directory on a drive a relative path is absolute: it steps up to the drive at most and there is
something behind the drive then, or it takes all of the directory away and goes on with a drive of its own. -/
def StaysAbsolute (directory file : Text) : Prop :=
  let depth := (components directory).length
  stepsUp file < depth ∧ 2 ≤ depth - stepsUp file + (behindSteps file).length ∨
    stepsUp file = depth ∧ isAbsolute (Text.join [slash] (behindSteps file))

instance (directory file : Text) : Decidable (StaysAbsolute directory file) :=
  inferInstanceAs (Decidable (_ ∨ _))

/-- A path joined to a directory on a drive goes on with its components. -/
theorem canonical_drive_append (hd : canonical d = d) (habsolute : isAbsolute d)
    (hhead : d.head? ≠ some slash) (hp : canonical p = p) :
    canonical (d ++ slash :: p) = spelled [] (resolve false (components d ++ Text.split slash p)) := by
  obtain ⟨hjoin, hnames, drive, second, rest, hcomponents, -⟩ := exists_drive hd habsolute hhead
  have hmore : ∃ c ∈ fold d, c ≠ slash := by
    rw [show fold d = d from hd ▸ fold_canonical d]
    obtain ⟨c, d', rfl⟩ := List.exists_cons_of_ne_nil (ne_nil_of_isAbsolute habsolute)
    exact ⟨c, List.mem_cons_self, fun hc => hhead (congrArg some hc)⟩
  have hroot : root ([] ++ d) = [] := root_append (.inl rfl) hhead
  have hsplit : Text.split slash d = components d := by
    rw [hjoin, Text.split_join (by simp [hcomponents]) fun part hpart => (hnames part hpart).no_slash,
      ← hjoin]
  rw [canonical_append hmore, show fold d = d from hd ▸ fold_canonical d,
    show fold p = p from hp ▸ fold_canonical p, show root d = [] from hroot, hsplit]
  rfl

/-- What is left of a directory's names and a relative path's components stays. -/
theorem isResolved_steps_up (hnames : ∀ part ∈ names, IsComponentName part)
    (hafter : ∀ part ∈ after, IsComponentName part) (steps : Nat) :
    IsResolved false
      (names.take (names.length - steps) ++ (List.replicate (steps - names.length) up ++ after)) := by
  rcases Nat.le_total steps names.length with hle | hle
  · have hnone : steps - names.length = 0 := Nat.sub_eq_zero_of_le hle
    refine isResolved_iff.mpr ⟨0, names.take (names.length - steps) ++ after, by simp [hnone], by simp, ?_⟩
    exact List.forall_mem_append.mpr ⟨fun part hpart => hnames part (List.mem_of_mem_take hpart), hafter⟩
  · have hnone : names.length - steps = 0 := Nat.sub_eq_zero_of_le hle
    exact isResolved_iff.mpr ⟨steps - names.length, after, by simp [hnone], by simp, hafter⟩

/-- Steps up from a drive and names behind it lead to an absolute path if the drive is left with something
behind it, or if all is taken away and what follows the steps is absolute itself. -/
theorem isAbsolute_steps_up_iff (hdrive : ∃ drive ∈ names.head?, IsDrive drive)
    (hnames : ∀ part ∈ names, IsComponentName part) (hafter : ∀ part ∈ after, IsComponentName part)
    (steps : Nat) :
    isAbsolute (Text.join [slash]
        (names.take (names.length - steps) ++ (List.replicate (steps - names.length) up ++ after))) ↔
      steps < names.length ∧ 2 ≤ names.length - steps + after.length ∨
        steps = names.length ∧ isAbsolute (Text.join [slash] after) := by
  have hresolved := isResolved_steps_up hnames hafter steps
  rcases Nat.lt_trichotomy steps names.length with hlt | heq | hgt
  · have hleft : names.length - steps ≠ 0 := Nat.sub_ne_zero_of_lt hlt
    have hnone : steps - names.length = 0 := Nat.sub_eq_zero_of_le hlt.le
    rw [isAbsolute_join_iff hresolved, hnone]
    obtain ⟨drive, hhead, hisDrive⟩ := hdrive
    have hfirst : drive ∈ (names.take (names.length - steps) ++ (List.replicate 0 up ++ after)).head? := by
      rw [List.head?_append, List.head?_take, if_neg hleft, Option.mem_def.mp hhead]
      rfl
    have hlength : (names.take (names.length - steps) ++ (List.replicate 0 up ++ after)).length =
        names.length - steps + after.length := by simp
    rw [and_iff_left ⟨drive, hfirst, hisDrive⟩, hlength]
    simp [hlt, hlt.ne]
  · simp [heq]
  · -- A step up stands in front.
    obtain ⟨more, hmore⟩ : ∃ more, steps - names.length = more + 1 :=
      Nat.exists_eq_succ_of_ne_zero (Nat.sub_ne_zero_of_lt hgt)
    have hnone : names.length - steps = 0 := Nat.sub_eq_zero_of_le hgt.le
    rw [isAbsolute_join_iff hresolved, hmore, hnone]
    simp [List.replicate_succ, not_isDrive_up, hgt.ne', hgt.le]

/-- A relative path seen from an absolute directory on a drive. -/
theorem isAbsolute_canonical_drive_iff (hd : canonical d = d) (habsolute : isAbsolute d)
    (hhead : d.head? ≠ some slash) (hp : canonical p = p) (hne : p ≠ [])
    (hrelative : p.head? ≠ some slash) :
    isAbsolute (canonical (d ++ slash :: p)) ↔ StaysAbsolute d p := by
  obtain ⟨hjoin, hnames, drive, second, rest, hcomponents, hdrive⟩ := exists_drive hd habsolute hhead
  rw [canonical_drive_append hd habsolute hhead hp, isAbsolute_spelled]
  by_cases hdot : p = Text.ofString "."
  · -- A dot leads to the directory itself.
    subst hdot
    have hself : resolve false (components d ++ Text.split slash (Text.ofString ".")) = components d := by
      have hresolved : IsResolved false (components d) :=
        isResolved_iff.mpr ⟨0, components d, rfl, by simp, hnames⟩
      have hsplit : Text.split slash (Text.ofString ".") = [Text.ofString "."] := by decide
      rw [hsplit, resolve, List.foldl_append, List.foldl_cons, push_skip (.inr rfl), List.foldl_nil]
      exact resolve_eq_self hresolved
    have hsteps : stepsUp (Text.ofString ".") = 0 := by decide
    have hdepth : 2 ≤ (components d).length := by simp [hcomponents]
    have hstays : StaysAbsolute d (Text.ofString ".") := by
      refine .inl ⟨?_, ?_⟩ <;> rw [hsteps] <;> omega
    rw [hself, ← hjoin]
    exact iff_of_true habsolute hstays
  · obtain ⟨hresolved, hpjoin⟩ := components_of_relative hp hne hdot hrelative
    obtain ⟨steps, after, hparts, -, hafter⟩ := isResolved_iff.mp hresolved
    obtain ⟨hsteps, hbehind⟩ := steps_of_components hparts fun part hpart => (hafter part hpart).name
    have hparts' : components p ≠ [] := by
      intro hnil
      rw [hpjoin, hnil] at hne
      exact hne rfl
    have hsplit : Text.split slash p = List.replicate steps up ++ after := by
      rw [hpjoin, Text.split_join hparts' hresolved.no_slash, hparts]
    rw [hsplit, resolve_steps_up (fun part hpart => (hnames part hpart).name)
      (fun part hpart => (hafter part hpart).name), StaysAbsolute, hsteps, hbehind]
    exact isAbsolute_steps_up_iff (by simpa [hcomponents] using hdrive) hnames hafter steps

/-- Seen from a directory that starts with a slash, each path is absolute. -/
theorem isAbsolute_canonical_of_slash (hhead : d.head? = some slash) : isAbsolute (canonical d) := by
  obtain ⟨d, rfl⟩ := List.head?_eq_some_iff.mp hhead
  have hfold : fold (slash :: d) = slash :: fold d := fold_append_slash [] d
  obtain ⟨c, start, hstart⟩ := List.exists_cons_of_ne_nil (root_slash_cons_ne_nil (fold d))
  obtain rfl : c = slash := (isRoot_root (slash :: fold d)).eq_slash c (by simp [hstart])
  rw [canonical_of_ne_nil (List.cons_ne_nil slash d), hfold, hstart, spelled_of_ne_nil (by simp)]
  rfl

end Findings.Path
