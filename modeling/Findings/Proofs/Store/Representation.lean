import Findings.Proofs.Path.NormalForm
import Findings.Proofs.Store.Grouping
import Findings.Proofs.Store.Visibility

/-!
# The representation of a store

What holds of a store however it is used:

* `Store.Housed`: the findings of a file are its own, and its path is canonical;
* `Store.FlagsAgree`: the flag of a file is that of its findings, also where they follow no mask;
* `Filters.Listed`: the index is the list of the references given out since the last clearing.

Where no addition breaks off in its backtrace, each file has findings too, and what is true of the findings
added stays true of those stored (`Store.Filed`). A file that is reserved for an addition that breaks off is
empty until one is accepted for it (`Grouped.findings_ne_nil_iff`). With the index in step with the files (`Store.WellFormed`), the findings of a category are listed in the
order in which they were added, each with its file (`findingsIn_listed`), and they are those that the
traversal meets (`WellFormed.findingsIn_perm`). That all this survives every run of a store with filters
over it, refused calls included, is `run_representation`.
-/

namespace Findings

/-! ## Findings in their files -/

namespace FileGroup

/-- The file has findings, all of them its own, and `P` holds of them, flags apart. -/
structure Filed (P : Finding → Prop) (g : FileGroup) : Prop where
  nonempty : g.findings ≠ []
  mem : ∀ f ∈ g.findings, f.file = g.path ∧ P f.content

variable {P : Finding → Prop} {g : FileGroup}

theorem filed_content_iff : g.content.Filed P ↔ g.Filed P := by
  -- Neither the file of a finding nor what `P` is asked about has a flag in it.
  have hmem : (∀ f ∈ g.content.findings, f.file = g.content.path ∧ P f.content) ↔
      ∀ f ∈ g.findings, f.file = g.path ∧ P f.content := by
    rw [content_findings, List.forall_mem_map]
    rfl
  have hne : g.content.findings ≠ [] ↔ g.findings ≠ [] := by simp
  exact ⟨fun h => ⟨hne.mp h.nonempty, hmem.mp h.mem⟩, fun h => ⟨hne.mpr h.nonempty, hmem.mpr h.mem⟩⟩

theorem filed_append {f : Finding} (hold : ∀ f' ∈ g.findings, f'.file = g.path ∧ P f'.content)
    (hpath : g.path = f.file) (hf : P f.content) : (g.append f).Filed P where
  nonempty := by simp [append]
  mem f' hf' := by
    rcases List.mem_append.mp hf' with hf' | hf'
    · exact hold f' hf'
    · obtain rfl := List.mem_singleton.mp hf'
      exact ⟨hpath.symm, hf⟩

/-- A file is kept under a path that its findings name. -/
theorem Filed.path {Q : Text → Prop} (h : g.Filed fun f => Q f.file) : Q g.path := by
  obtain ⟨f, hf⟩ := List.exists_mem_of_ne_nil _ h.nonempty
  obtain ⟨hfile, hq⟩ := h.mem f hf
  exact hfile ▸ hq

end FileGroup

namespace Store

/-- Each file has findings, all of them its own, and `P` holds of all findings, flags apart. -/
def Filed (P : Finding → Prop) (s : Store) : Prop := ∀ g ∈ s.files, g.Filed P

section Filed

variable {P : Finding → Prop} {s s' : Store}

theorem filed_empty (generation : Nat) : Filed P { generation } :=
  fun _ h => absurd h List.not_mem_nil

theorem filed_content_iff : Filed P s.content ↔ Filed P s := by
  unfold Filed
  rw [content_files, List.forall_mem_map]
  exact forall₂_congr fun _ _ => FileGroup.filed_content_iff

theorem Filed.of_content_eq (h : Filed P s) (hs : s'.content = s.content) : Filed P s' := by
  rw [← filed_content_iff, hs, filed_content_iff]
  exact h

theorem mem_place {f : Finding} {gs : List FileGroup} {g : FileGroup} (h : g ∈ place f gs) :
    g ∈ gs ∨ ∃ g', (g' ∈ gs ∨ g' = { path := f.file }) ∧ g'.path = f.file ∧ g = g'.append f := by
  induction gs with
  | nil =>
    obtain rfl : g = FileGroup.append { path := f.file } f := by simpa [place] using h
    exact .inr ⟨_, .inr rfl, rfl, rfl⟩
  | cons first gs ih =>
    by_cases hp : first.path = f.file
    · rw [place_cons_of_eq hp] at h
      rcases List.mem_cons.mp h with rfl | h
      · exact .inr ⟨first, .inl List.mem_cons_self, hp, rfl⟩
      · exact .inl (List.mem_cons_of_mem _ h)
    · rw [place_cons_of_ne hp] at h
      rcases List.mem_cons.mp h with rfl | h
      · exact .inl List.mem_cons_self
      · rcases ih h with h | ⟨g', h | h, hg'⟩
        · exact .inl (List.mem_cons_of_mem _ h)
        · exact .inr ⟨g', .inl (List.mem_cons_of_mem _ h), hg'⟩
        · exact .inr ⟨g', .inr h, hg'⟩

theorem Filed.insert (h : Filed P s) {f : Finding} (hf : P f.content) : Filed P (s.insert f) := by
  intro g hg
  rcases mem_place hg with hg | ⟨g', hg', hpath, rfl⟩
  · exact h g hg
  · refine FileGroup.filed_append ?_ hpath hf
    rcases hg' with hg' | rfl
    · exact (h g' hg').mem
    · exact fun _ hf' => absurd hf' List.not_mem_nil

end Filed

/-- The paths of the files are canonical, and the findings of a file are its own. -/
def Housed (s : Store) : Prop :=
  ∀ g ∈ s.files, Path.canonical g.path = g.path ∧ ∀ f ∈ g.findings, f.file = g.path

section Housed

variable {s s' : Store}

theorem housed_empty (generation : Nat) : Housed { generation } := fun _ h => absurd h List.not_mem_nil

theorem housed_content_iff : Housed s.content ↔ Housed s := by
  unfold Housed
  rw [content_files, List.forall_mem_map]
  refine forall₂_congr fun g _ => ?_
  rw [FileGroup.content_findings, List.forall_mem_map]
  rfl

theorem Housed.of_content_eq (h : Housed s) (hs : s'.content = s.content) : Housed s' := by
  rw [← housed_content_iff, hs, housed_content_iff]
  exact h

theorem Housed.insert (h : Housed s) {f : Finding} (hf : Path.canonical f.file = f.file) :
    Housed (s.insert f) := by
  intro g hg
  rcases mem_place hg with hg | ⟨g', hg', hpath, rfl⟩
  · exact h g hg
  · refine ⟨hpath ▸ hf, fun f' hf' => ?_⟩
    rcases List.mem_append.mp hf' with hf' | hf'
    · rcases hg' with hg' | rfl
      · exact (h g' hg').2 f' hf'
      · exact absurd hf' List.not_mem_nil
    · obtain rfl := List.mem_singleton.mp hf'
      exact hpath.symm

theorem mem_reserve {path : Text} {g : FileGroup} (h : g ∈ (s.reserve path).files) :
    g ∈ s.files ∨ g = { path } := by
  unfold reserve at h
  split at h
  · exact .inl h
  · simpa using h

theorem Housed.reserve (h : Housed s) {path : Text} (hpath : Path.canonical path = path) :
    Housed (s.reserve path) := by
  intro g hg
  rcases mem_reserve hg with hg | rfl
  · exact h g hg
  · exact ⟨hpath, fun _ hf => absurd hf List.not_mem_nil⟩

end Housed

/-! ## Flags of files -/

/-- The flag of each file is that of its findings: hidden if all of them are. -/
def FlagsAgree (s : Store) : Prop := ∀ g ∈ s.files, g.hidden = g.findings.all (·.hidden)

theorem flagsAgree_empty (generation : Nat) : FlagsAgree { generation } :=
  fun _ h => absurd h List.not_mem_nil

section FlagsAgree

variable {s : Store}

theorem FlagsAgree.insert (h : s.FlagsAgree) (f : Finding) : (s.insert f).FlagsAgree := by
  intro g hg
  rcases mem_place hg with hg | ⟨g', hg', -, rfl⟩
  · exact h g hg
  · have hflag : g'.hidden = g'.findings.all (·.hidden) := by
      rcases hg' with hg' | rfl
      · exact h g' hg'
      · rfl
    simp [FileGroup.append, hflag]

theorem FlagsAgree.reserve (h : s.FlagsAgree) (path : Text) : (s.reserve path).FlagsAgree := by
  intro g hg
  rcases mem_reserve hg with hg | rfl
  · exact h g hg
  · rfl

/-- Groups that are refreshed or stay as they are keep their flags right. -/
theorem FlagsAgree.map (h : s.FlagsAgree) {change : FileGroup → FileGroup}
    (hc : ∀ g ∈ s.files, change g = g ∨ ∃ g', change g = FileGroup.refresh g') :
    FlagsAgree { s with files := s.files.map change } := by
  intro g hg
  obtain ⟨g₀, hg₀, rfl⟩ := List.mem_map.mp hg
  rcases hc g₀ hg₀ with hsame | ⟨g', hrefresh⟩
  · rw [hsame]
    exact h g₀ hg₀
  · rw [hrefresh]
    rfl

theorem FlagsAgree.showCategory (h : s.FlagsAgree) (hw : s.WellFormed) (c : Category)
    (shown : Bool) : (s.showCategory c shown).FlagsAgree := by
  rw [hw.showCategory_eq]
  refine h.map fun g _ => ?_
  unfold showGroup
  split
  · exact .inr ⟨_, rfl⟩
  · exact .inl rfl

theorem FlagsAgree.recompute (h : s.FlagsAgree) (m : Mask) : (s.recompute m).FlagsAgree :=
  h.map fun _ _ => .inr ⟨_, rfl⟩

theorem FlagsAgree.applyMask (h : s.FlagsAgree) (m : Mask) (r : Ref) :
    (s.applyMask m r).FlagsAgree := by
  unfold Store.applyMask
  split
  · exact h
  · refine h.map fun g _ => ?_
    split
    · exact .inr ⟨_, rfl⟩
    · exact .inl rfl

end FlagsAgree

/-! ## The findings of a category -/

/-- The reference to a slot. -/
def refAt (s : Store) (slot : Slot) : Ref := ⟨slot.path, slot.position, s.generation⟩

/-- The finding that a reference names, with its file. -/
def locate (s : Store) (r : Ref) : Option (FileGroup × Finding) :=
  (s.fileOf r).bind fun g => (s.resolve r).map (g, ·)

theorem locate_refAt (s : Store) (slot : Slot) : s.locate (s.refAt slot) = s.at? slot := by
  have hfile : s.fileOf (s.refAt slot) = s.group? slot.path := if_pos rfl
  unfold locate resolve at?
  rw [hfile]
  cases s.group? slot.path with
  | none => rfl
  | some g => simp [refAt]

section WellFormed

variable {s : Store} (h : s.WellFormed)
include h

theorem WellFormed.at?_of_mem {g : FileGroup} (hg : g ∈ s.files) (i : Nat) :
    s.at? ⟨g.path, i⟩ = g.findings[i]?.map (g, ·) := by
  unfold at?
  rw [(h.group?_eq_some_iff g.path g).mpr ⟨hg, rfl⟩]

/-- Every slot listed under a category holds a finding. -/
theorem WellFormed.map_at?_slotsOf (c : Category) :
    (s.slotsOf c).map s.at? = (s.findingsIn (.real c)).map some := by
  have hsome : ∀ slot ∈ s.slotsOf c, (s.at? slot).isSome := by
    rintro ⟨path, i⟩ hslot
    have hindex : (c, (⟨path, i⟩ : Slot)) ∈ s.index := by simpa [slotsOf] using hslot
    rw [h.index_perm.mem_iff, slots, List.mem_flatMap] at hindex
    obtain ⟨g, hg, hmem⟩ := hindex
    obtain ⟨hpath, f, hf, -⟩ := (g.mem_slots_iff c _).mp hmem
    obtain rfl : g.path = path := hpath
    simp [h.at?_of_mem hg, hf]
  change _ = ((s.slotsOf c).filterMap s.at?).map some
  generalize s.slotsOf c = slots at hsome ⊢
  induction slots with
  | nil => rfl
  | cons slot slots ih =>
    rw [List.forall_mem_cons] at hsome
    obtain ⟨m, hm⟩ := Option.isSome_iff_exists.mp hsome.1
    rw [List.map_cons, ih hsome.2, List.filterMap_cons_some hm, List.map_cons, hm]

/-- Of the slots of a file, those of a category lead to its findings of the category. -/
theorem WellFormed.filterMap_at?_slots {g : FileGroup} (hg : g ∈ s.files) (c : Category) :
    ((g.slots.filter fun e => e.1 = c).map (·.2)).filterMap s.at? =
      (g.findings.map (g, ·)).filter fun m => m.2.category = c := by
  have hslots : g.slots = g.findings.zipIdx.map fun e => (e.1.category, ⟨g.path, e.2⟩) := by
    rw [FileGroup.slots, List.mapIdx_eq_zipIdx_map]
  have hfindings : g.findings.map (g, ·) = g.findings.zipIdx.map fun e => (g, e.1) := by
    conv_lhs => rw [← List.zipIdx_map_fst 0 g.findings, List.map_map]
    rfl
  rw [hslots, hfindings, List.filter_map, List.filter_map, List.map_map, List.filterMap_map,
    ← List.filterMap_eq_map]
  refine List.filterMap_congr fun e he => ?_
  have hmem := (List.mem_filter.mp he).1
  rw [List.mem_zipIdx_iff_getElem?] at hmem
  simp [h.at?_of_mem hg, hmem]

/-- The findings listed under a category are the stored ones of the category, with their files. -/
theorem WellFormed.findingsIn_perm (c : Category) :
    (s.findingsIn (.real c)).Perm ((s.traverse true).filter fun m => m.2.category = c) := by
  have hslots : (s.slotsOf c).Perm ((s.slots.filter fun e => e.1 = c).map (·.2)) :=
    (h.index_perm.filter _).map _
  have htraverse : ((s.slots.filter fun e => e.1 = c).map (·.2)).filterMap s.at? =
      (s.traverse true).filter fun m => m.2.category = c := by
    rw [slots, traverse_true, List.filter_flatMap, List.filter_flatMap, List.map_flatMap,
      List.filterMap_flatMap]
    exact List.flatMap_congr fun g hg => h.filterMap_at?_slots hg c
  rw [← htraverse]
  exact hslots.filterMap _

end WellFormed

end Store

/-! ## Along a run -/

namespace Filters

/-- What holds of a store at every point of a run, whatever the flags are. -/
structure Sound (s : Store) : Prop where
  wellFormed : s.WellFormed
  housed : s.Housed
  flags : s.FlagsAgree

theorem sound_empty (generation : Nat) : Sound { generation } :=
  ⟨Store.wellFormed_empty _, Store.housed_empty _, Store.flagsAgree_empty _⟩

/-- Where nothing but flags changes, only the flags of files are to be looked at. -/
theorem Sound.of_content_eq {s s' : Store} (h : Sound s) (hs : s'.content = s.content)
    (hflags : s'.FlagsAgree) : Sound s' :=
  ⟨Store.wellFormed_of_content_eq hs h.wellFormed, h.housed.of_content_eq hs, hflags⟩

theorem Sound.insert {s : Store} (h : Sound s) {f : Finding} (hf : Path.canonical f.file = f.file) :
    Sound (s.insert f) :=
  ⟨h.wellFormed.insert f, h.housed.insert hf, h.flags.insert f⟩

theorem Sound.reserve {s : Store} (h : Sound s) {path : Text} (hpath : Path.canonical path = path) :
    Sound (s.reserve path) :=
  ⟨h.wellFormed.reserve path, h.housed.reserve hpath, h.flags.reserve path⟩

theorem Sound.add {s : Store} (h : Sound s) (n : Submission) : Sound (s.add n).1 := by
  rcases s.add_cases n with ⟨-, hadd⟩ | ⟨e, -, hadd⟩ | ⟨f, hf, hadd⟩
  · rwa [hadd]
  · rw [hadd]
    exact h.reserve (Path.canonical_canonical n.file)
  · rw [hadd]
    exact h.insert (by rw [hf.file, Path.canonical_canonical])

theorem Sound.through {s : Filters} (h : Sound s.store) (i : Nat)
    {act : Filtered → Outcome Filtered Unit}
    (hact : ∀ v, Sound v.store → Sound (act v).state.store) :
    Sound (s.through i act).1.store := by
  unfold Filters.through
  cases s.masks[i]? with
  | none => exact h
  | some mask => exact hact ⟨s.store, mask⟩ h

theorem Sound.setMask {v : Filtered} (h : Sound v.store) (code : CategoryCode) (shown : Bool) :
    Sound (v.setMask code shown).state.store := by
  refine h.of_content_eq (v.content_setMask code shown) ?_
  cases code with
  | sentinel => exact h.flags
  | real c => exact h.flags.showCategory h.wellFormed c shown

theorem Sound.setMasks {v : Filtered} (h : Sound v.store) (entries : List (CategoryCode × Bool)) :
    Sound (v.setMasks entries).state.store := by
  refine h.of_content_eq (v.content_setMasks entries) ?_
  unfold Filtered.setMasks
  split
  · exact h.flags.recompute _
  · exact h.flags

theorem step_sound {s : Filters} (h : Sound s.store) (op : Op) : Sound (s.step op).1.store := by
  cases op with
  | add n => exact h.add n
  | clear => exact sound_empty _
  | filter entries =>
    simp only [step]
    split <;> exact h
  | setMask i code shown => exact h.through i fun _ hv => hv.setMask code shown
  | setMasks i entries => exact h.through i fun _ hv => hv.setMasks entries
  | apply i r =>
    exact h.through i fun v hv =>
      hv.of_content_eq (v.store.content_applyMask v.mask r) (hv.flags.applyMask v.mask r)
  | recompute i =>
    exact h.through i fun v hv =>
      hv.of_content_eq (v.store.content_recompute v.mask) (hv.flags.recompute v.mask)

theorem run_sound {s : Filters} (h : Sound s.store) (ops : List Op) : Sound (s.run ops).store := by
  induction ops generalizing s with
  | nil => exact h
  | cons op ops ih => exact ih (step_sound h op)

/-! ## The order of adding -/

/-- The index lists the references given out. -/
def Listed (s : Store) (given : List (Submission × Ref)) : Prop :=
  s.index.map (fun e => (CategoryCode.real e.1, s.refAt e.2)) = given.map fun a => (a.1.category, a.2)

theorem Listed.of_content_eq {s s' : Store} {given : List (Submission × Ref)} (h : Listed s given)
    (hs : s'.content = s.content) : Listed s' given := by
  have hindex : s'.index = s.index := by
    rw [← Store.content_index s', hs, Store.content_index]
  have hgeneration : s'.generation = s.generation := by
    rw [← Store.content_generation s', hs, Store.content_generation]
  have href : s'.refAt = s.refAt := by
    funext slot
    rw [Store.refAt, Store.refAt, hgeneration]
  unfold Listed
  rw [hindex, href]
  exact h

theorem step_listed {s : Filters} {given : List (Submission × Ref)} (h : Listed s.store given)
    (op : Op) : Listed (s.step op).1.store (s.noteGiven given op) := by
  match op with
  | .add n =>
    rcases s.store.add_cases n with ⟨-, hadd⟩ | ⟨e, -, hadd⟩ | ⟨f, hf, hadd⟩
    · simpa only [noteGiven, step, hadd, Except.map] using h
    · simp only [noteGiven, step, hadd, Except.map]
      unfold Listed Store.refAt at h ⊢
      rwa [Store.reserve_index, Store.reserve_generation]
    · simp only [noteGiven, step, hadd, Except.map]
      unfold Listed at h ⊢
      rw [List.map_append, ← h, List.map_singleton, hf.category]
      exact List.map_append
  | .clear => exact rfl
  | .filter _ | .setMask .. | .setMasks .. | .apply .. | .recompute _ =>
    exact h.of_content_eq (s.content_step (by simp) (by simp))

theorem listed_run {s : Filters} {given : List (Submission × Ref)} (h : Listed s.store given)
    (ops : List Op) : Listed (s.run ops).store (s.givenAlong given ops) := by
  induction ops generalizing s given with
  | nil => exact h
  | cons op ops ih => exact ih (step_listed h op)

/-- The findings of a category are those that the references given out for it name, in their order. -/
theorem findingsIn_listed {s : Store} {given : List (Submission × Ref)} (hw : s.WellFormed)
    (h : Listed s given) (c : Category) :
    (s.findingsIn (.real c)).map some =
      (given.filter fun a => a.1.category = .real c).map fun a => s.locate a.2 := by
  have hrefs : (s.slotsOf c).map s.refAt =
      (given.filter fun a => a.1.category = .real c).map (·.2) := by
    have hfilter := congrArg
      (fun l => (l.filter fun e : CategoryCode × Ref => e.1 = .real c).map (·.2)) h
    simpa [List.filter_map, Function.comp_def, Store.slotsOf] using hfilter
  calc (s.findingsIn (.real c)).map some = (s.slotsOf c).map s.at? := (hw.map_at?_slotsOf c).symm
    _ = ((s.slotsOf c).map s.refAt).map s.locate := by
      rw [List.map_map]
      exact List.map_congr_left fun slot _ => (s.locate_refAt slot).symm
    _ = (given.filter fun a => a.1.category = .real c).map fun a => s.locate a.2 := by
      rw [hrefs, List.map_map]
      rfl

/-- A file has findings just when an addition was accepted for it. -/
theorem Grouped.findings_ne_nil_iff {s : Store} {begun log : List Submission} (h : Grouped s begun log)
    {g : FileGroup} (hg : g ∈ s.files) :
    g.findings ≠ [] ↔ ∃ n ∈ log, Path.canonical n.file = g.path := by
  obtain ⟨fs, hfs, hfiles⟩ := h.files
  have hcontent : g.content ∈ (pathsOf begun).map (Store.groupOf fs) := hfiles ▸ List.mem_map_of_mem hg
  obtain ⟨path, -, hgroup⟩ := List.mem_map.mp hcontent
  obtain rfl : path = g.path := congrArg FileGroup.path hgroup
  have hfindings : g.findings.map Finding.content = fs.filter fun f => f.file = g.path :=
    (congrArg FileGroup.findings hgroup).symm
  rw [ne_eq, ← List.map_eq_nil_iff (f := Finding.content), hfindings, List.filter_eq_nil_iff]
  push Not
  constructor
  · rintro ⟨f, hf, hpath⟩
    obtain ⟨n, hn, hyields⟩ := exists_of_forall₂ hfs.flip hf
    exact ⟨n, hn, hyields.file ▸ of_decide_eq_true hpath⟩
  · rintro ⟨n, hn, hpath⟩
    obtain ⟨f, hf, hyields⟩ := exists_of_forall₂ hfs hn
    exact ⟨f, hf, decide_eq_true (hyields.file.trans hpath)⟩

/-- Each file has findings just when for each addition that was begun one of its file was accepted. -/
theorem Grouped.forall_findings_ne_nil_iff {s : Store} {begun log : List Submission} (h : Grouped s begun log) :
    (∀ g ∈ s.files, g.findings ≠ []) ↔
      ∀ n ∈ begun, ∃ n' ∈ log, Path.canonical n'.file = Path.canonical n.file := by
  have hpaths : (∀ path ∈ s.files.map (·.path), ∃ n' ∈ log, Path.canonical n'.file = path) ↔
      ∀ path ∈ begun.map fun n => Path.canonical n.file, ∃ n' ∈ log, Path.canonical n'.file = path := by
    rw [h.paths, pathsOf]
    simp only [List.mem_eraseDups]
  rw [List.forall_mem_map, List.forall_mem_map] at hpaths
  rw [← hpaths]
  exact forall₂_congr fun g hg => h.findings_ne_nil_iff hg

end Filters
end Findings
