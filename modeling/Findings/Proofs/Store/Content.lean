import Findings.Store.Filtered
import Mathlib.Tactic.SplitIfs

/-!
# The store apart from its flags

`Store.content` forgets every hidden flag. Changing what is shown leaves it as it is
(`content_showCategory`, `content_recompute`, `content_applyMask`), and references resolve in it as in the
store (`resolve_content`). An addition is refused, or places what it `Yields` at the end of the group of its file
(`group?_insert`), or breaks off and leaves a place for its file, which changes nothing for references
(`add_cases`, `resolve_reserve`).
-/

namespace Findings

/-! ## Forgetting flags -/

def Finding.content (f : Finding) : Finding := { f with hidden := false }

def FileGroup.content (g : FileGroup) : FileGroup :=
  { g with findings := g.findings.map Finding.content, hidden := false }

/-- All of a store but its flags. -/
def Store.content (s : Store) : Store := { s with files := s.files.map FileGroup.content }

theorem Finding.eq_of_content_eq {f f' : Finding} (h : f'.content = f.content) :
    f' = { f with hidden := f'.hidden } := by
  cases f
  cases f'
  simp_all [Finding.content]

namespace FileGroup

@[simp] theorem content_path (g : FileGroup) : g.content.path = g.path := rfl

@[simp] theorem content_findings (g : FileGroup) :
    g.content.findings = g.findings.map Finding.content := rfl

theorem content_refresh (g : FileGroup) : g.refresh.content = g.content := rfl

theorem content_modifyAt (g : FileGroup) (position : Nat) (hidden : Bool) :
    (g.modifyAt position (Store.setHidden hidden)).content = g.content := by
  have h : ∀ (l : List Finding) (i : Nat),
      (l.modify i (Store.setHidden hidden)).map Finding.content = l.map Finding.content := by
    intro l
    induction l with
    | nil => simp
    | cons f l ih =>
      intro i
      cases i with
      | zero => rfl
      | succ i => simp [ih i]
  simp [content, modifyAt, h]

end FileGroup

/-! ## What is added -/

namespace Submission

/-- The finding is what the submission says: nothing is changed but the spelling of the file, and a label is put
where there is none. The flag is left open. -/
structure Yields (n : Submission) (f : Finding) : Prop where
  file : f.file = Path.canonical n.file
  category : n.category = .real f.category
  message : f.message = n.message
  backtrace : n.backtrace = .ok f.backtrace
  id : f.id = n.id
  label : n.label ≠ .null → f.label = n.label
  unlabelled : n.label = .null → f.label = .text f.category.label

/-- Reading the backtrace breaks off, and the category would have been accepted. -/
structure BreaksOff (n : Submission) (e : Error) : Prop where
  category : ∃ c, n.category = .real c
  backtrace : n.backtrace = .error e

theorem yields_finding (n : Submission) {c : Category} {ls : List Location} (hc : n.category = .real c)
    (hls : n.backtrace = .ok ls) : n.Yields (n.finding c ls) where
  file := rfl
  category := hc
  message := rfl
  backtrace := hls
  id := rfl
  label h := by
    unfold finding
    split
    · exact absurd ‹_› h
    · rfl
  unlabelled h := by simp [finding, h]

theorem Yields.of_content_eq {n : Submission} {f f' : Finding} (h : n.Yields f)
    (hf : f'.content = f.content) : n.Yields f' := by
  rw [Finding.eq_of_content_eq hf]
  exact ⟨h.file, h.category, h.message, h.backtrace, h.id, h.label, h.unlabelled⟩

end Submission

namespace Store

@[simp] theorem content_files (s : Store) : s.content.files = s.files.map FileGroup.content := rfl

@[simp] theorem content_index (s : Store) : s.content.index = s.index := rfl

@[simp] theorem content_generation (s : Store) : s.content.generation = s.generation := rfl

/-! ## Changing flags -/

theorem content_modifyGroup (s : Store) (path : Text) {change : FileGroup → FileGroup}
    (h : ∀ g, (change g).content = g.content) : (s.modifyGroup path change).content = s.content := by
  have hg : ∀ g ∈ s.files,
      (if g.path = path then change g else g).content = g.content := by
    intro g _
    split
    · exact h g
    · rfl
  simp only [content, modifyGroup, List.map_map]
  congr 1
  exact List.map_congr_left hg

theorem content_foldl {α : Type} (act : Store → α → Store)
    (h : ∀ s a, (act s a).content = s.content) (l : List α) (s : Store) :
    (l.foldl act s).content = s.content := by
  induction l generalizing s with
  | nil => rfl
  | cons a l ih => rw [List.foldl_cons, ih, h]

theorem content_showCategory (s : Store) (c : Category) (shown : Bool) :
    (s.showCategory c shown).content = s.content := by
  unfold showCategory
  rw [content_foldl _ fun s path => content_modifyGroup s path FileGroup.content_refresh]
  exact content_foldl _ (fun s (slot : Slot) => content_modifyGroup s slot.path
    fun g => g.content_modifyAt slot.position (!shown)) _ s

theorem content_applyMask (s : Store) (m : Mask) (r : Ref) :
    (s.applyMask m r).content = s.content := by
  unfold applyMask
  split
  · rfl
  · exact content_modifyGroup s r.path fun g => g.content_modifyAt _ _

theorem content_recompute (s : Store) (m : Mask) : (s.recompute m).content = s.content := by
  have h : ∀ g : FileGroup, (recomputeGroup m g).content = g.content := by
    intro g
    simp [recomputeGroup, FileGroup.content, FileGroup.refresh, Finding.content, setHidden]
  simp [content, recompute, h]

/-! ## Resolving -/

theorem group?_content (s : Store) (path : Text) :
    s.content.group? path = (s.group? path).map FileGroup.content := by
  simp only [group?, content_files, List.find?_map]
  rfl

theorem fileOf_content (s : Store) (r : Ref) :
    s.content.fileOf r = (s.fileOf r).map FileGroup.content := by
  unfold fileOf
  simp only [content_generation, group?_content]
  split <;> rfl

theorem resolve_content (s : Store) (r : Ref) :
    s.content.resolve r = (s.resolve r).map Finding.content := by
  unfold resolve
  rw [fileOf_content]
  cases s.fileOf r with
  | none => rfl
  | some g =>
    simp only [Option.map_some, FileGroup.content_findings, List.getElem?_map]
    split <;> rfl

theorem resolve_eq_none {s : Store} {r : Ref} (h : r.generation ≠ s.generation) :
    s.resolve r = none := by
  simp [resolve, fileOf, h]

/-! ## Placing -/

/-- The group of a file, without findings if there is none yet. -/
def groupFor (s : Store) (path : Text) : FileGroup := (s.group? path).getD { path }

/-- The slot that the next finding of a file gets. -/
def nextSlot (s : Store) (path : Text) : Slot := ⟨path, (s.groupFor path).findings.length⟩

/-- The reference to it. -/
def nextRef (s : Store) (path : Text) : Ref := ⟨path, (s.nextSlot path).position, s.generation⟩

theorem nextSlot_content (s : Store) (path : Text) : s.content.nextSlot path = s.nextSlot path := by
  unfold nextSlot groupFor
  rw [group?_content]
  cases s.group? path <;> simp

theorem nextRef_content (s : Store) (path : Text) : s.content.nextRef path = s.nextRef path := by
  rw [nextRef, nextSlot_content, content_generation, nextRef]

/-- The store with a finding more. -/
def insert (s : Store) (f : Finding) : Store :=
  { s with files := place f s.files, index := s.index ++ [(f.category, s.nextSlot f.file)] }

theorem groupFor_length (s : Store) (path : Text) :
    ((s.group? path).map (·.findings.length)).getD 0 = (s.groupFor path).findings.length := by
  unfold groupFor
  cases s.group? path <;> rfl

theorem add_eq_insert (s : Store) {n : Submission} {c : Category} {ls : List Location}
    (hc : n.category = .real c) (hls : n.backtrace = .ok ls) :
    s.add n = (s.insert (n.finding c ls), .ok (s.nextRef (n.finding c ls).file)) := by
  simp only [add, hc, hls, groupFor_length]
  rfl

theorem add_cases (s : Store) (n : Submission) :
    n.category = .sentinel ∧ s.add n = (s, .error (.invalidCategory (.category .sentinel))) ∨
    (∃ e, n.BreaksOff e ∧ s.add n = (s.reserve (Path.canonical n.file), .error e)) ∨
    ∃ f, n.Yields f ∧ s.add n = (s.insert f, .ok (s.nextRef f.file)) := by
  cases hc : n.category with
  | sentinel => exact .inl ⟨rfl, by simp only [add, hc]⟩
  | real c =>
    cases hls : n.backtrace with
    | error e => exact .inr (.inl ⟨e, ⟨⟨c, hc⟩, hls⟩, by simp only [add, hc, hls]⟩)
    | ok ls => exact .inr (.inr ⟨_, n.yields_finding hc hls, s.add_eq_insert hc hls⟩)

theorem find?_place (f : Finding) (gs : List FileGroup) (path : Text) :
    (place f gs).find? (fun g => g.path = path) =
      if path = f.file then
        some (((gs.find? fun g => g.path = path).getD { path }).append f)
      else gs.find? fun g => g.path = path := by
  induction gs with
  | nil =>
    by_cases h : path = f.file
    · subst h; simp [place, FileGroup.append]
    · have h' : ¬ f.file = path := fun e => h e.symm
      simp [place, FileGroup.append, h, h']
  | cons g gs ih =>
    by_cases hg : g.path = f.file
    · by_cases h : path = f.file
      · subst h; simp [place, FileGroup.append, hg]
      · have h' : ¬ f.file = path := fun e => h e.symm
        simp [place, FileGroup.append, hg, h, h']
    · by_cases h : g.path = path
      · have h' : ¬ path = f.file := fun e => hg (h.trans e)
        simp [place, h, h']
      · simp [place, hg, h, ih]

theorem group?_insert (s : Store) (f : Finding) (path : Text) :
    (s.insert f).group? path =
      if path = f.file then some ((s.groupFor path).append f) else s.group? path :=
  find?_place f s.files path

theorem fileOf_nextRef (s : Store) (path : Text) : s.fileOf (s.nextRef path) = s.group? path := by
  simp [fileOf, nextRef]

/-- The next slot of a file is free. -/
theorem resolve_nextRef (s : Store) (path : Text) : s.resolve (s.nextRef path) = none := by
  rw [resolve, fileOf_nextRef]
  cases h : s.group? path with
  | none => rfl
  | some g => simp [nextRef, nextSlot, groupFor, h]

/-! ## Reserving -/

theorem reserve_of_mem {s : Store} {path : Text} (h : path ∈ s.files.map (·.path)) : s.reserve path = s :=
  if_pos h

theorem reserve_of_not_mem {s : Store} {path : Text} (h : path ∉ s.files.map (·.path)) :
    s.reserve path = { s with files := s.files ++ [{ path }] } := if_neg h

theorem group?_reserve (s : Store) (path other : Text) :
    (s.reserve path).group? other = if other = path then some (s.groupFor path) else s.group? other := by
  by_cases hmem : path ∈ s.files.map (·.path)
  · rw [reserve_of_mem hmem]
    split_ifs with h
    · subst h
      obtain ⟨g, hg⟩ : ∃ g, s.group? other = some g := by
        rw [← Option.isSome_iff_exists, group?, List.find?_isSome]
        obtain ⟨g, hg, hpath⟩ := List.mem_map.mp hmem
        exact ⟨g, hg, decide_eq_true hpath⟩
      rw [groupFor, hg, Option.getD_some]
    · rfl
  · have hnone : s.group? path = none := by
      rw [group?, List.find?_eq_none]
      exact fun g hg hpath => hmem (List.mem_map.mpr ⟨g, hg, of_decide_eq_true hpath⟩)
    rw [reserve_of_not_mem hmem, group?, List.find?_append, ← group?]
    split_ifs with h
    · subst h
      simp [groupFor, hnone]
    · simp [Ne.symm h]

@[simp] theorem reserve_generation (s : Store) (path : Text) :
    (s.reserve path).generation = s.generation := by
  unfold reserve
  split <;> rfl

@[simp] theorem reserve_index (s : Store) (path : Text) : (s.reserve path).index = s.index := by
  unfold reserve
  split <;> rfl

/-- What resolves, resolves as before, for a new group has no findings. -/
theorem resolve_reserve (s : Store) (path : Text) (r : Ref) :
    (s.reserve path).resolve r = s.resolve r := by
  by_cases hpath : r.path = path
  · subst hpath
    simp only [resolve, fileOf, reserve_generation, group?_reserve, if_true]
    by_cases hg : r.generation = s.generation
    · simp only [hg, if_true, groupFor]
      cases s.group? r.path <;> simp
    · simp only [hg, if_false]
  · simp only [resolve, fileOf, reserve_generation, group?_reserve, hpath, if_false]

/-- A finding is resolved by the reference it was added under. -/
theorem resolve_insert_nextRef (s : Store) (f : Finding) :
    (s.insert f).resolve (s.nextRef f.file) = some f := by
  have h : (s.insert f).fileOf (s.nextRef f.file) = some ((s.groupFor f.file).append f) :=
    (if_pos rfl).trans ((group?_insert s f f.file).trans (if_pos rfl))
  rw [resolve, h]
  simp [nextRef, nextSlot, FileGroup.append]

end Store

namespace Filtered

theorem content_setMask (s : Filtered) (code : CategoryCode) (shown : Bool) :
    (s.setMask code shown).state.store.content = s.store.content := by
  cases code with
  | sentinel => rfl
  | real c => exact s.store.content_showCategory c shown

theorem content_setMasks (s : Filtered) (entries : List (CategoryCode × Bool)) :
    (s.setMasks entries).state.store.content = s.store.content := by
  unfold setMasks
  split
  · exact s.store.content_recompute _
  · rfl

end Filtered
end Findings
