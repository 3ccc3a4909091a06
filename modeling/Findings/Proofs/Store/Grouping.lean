import Findings.Proofs.Lists
import Findings.Proofs.Store.Run

/-!
# The store is the grouping of its log

The log of a run holds the additions that were accepted since the last clearing (`Filters.givenAlong`). At
every point of a run the store, flags apart, is the log grouped by file (`groupOf`): placing a finding in the
groups of a log gives the groups of the log with the finding at its end (`place_of_mem`, `place_of_not_mem`), a
clearing empties both, and nothing else touches either (`step_grouped`). The files are those of all additions
that were begun, since one that breaks off in its backtrace has got its file before (`Filters.begunAlong`). What
this means for the traversal, the counts and the look-up by path is `run_grouping`.
-/

namespace Findings

/-! ## Grouping a list of findings -/

namespace Store

/-- The findings of a file. -/
def groupOf (fs : List Finding) (path : Text) : FileGroup where
  path := path
  findings := fs.filter fun f => f.file = path
  hidden := false

/-- The findings grouped by file, in the order in which the files occur first. -/
def groupsOf (fs : List Finding) : List FileGroup :=
  (fs.map (·.file)).eraseDups.map (groupOf fs)

@[simp] theorem groupOf_path (fs : List Finding) (path : Text) : (groupOf fs path).path = path := rfl

theorem place_cons_of_eq {f : Finding} {g : FileGroup} (h : g.path = f.file) (gs : List FileGroup) :
    place f (g :: gs) = g.append f :: gs := if_pos h

theorem place_cons_of_ne {f : Finding} {g : FileGroup} (h : g.path ≠ f.file) (gs : List FileGroup) :
    place f (g :: gs) = g :: place f gs := if_neg h

theorem groupOf_append_of_ne (fs : List Finding) {f : Finding} {path : Text} (h : path ≠ f.file) :
    groupOf (fs ++ [f]) path = groupOf fs path := by
  simp [groupOf, Ne.symm h]

theorem groupOf_append_self (fs : List Finding) {f : Finding} (h : f.hidden = false) :
    groupOf (fs ++ [f]) f.file = (groupOf fs f.file).append f := by
  simp [groupOf, FileGroup.append, h]

/-- A file without findings in the list has none. -/
theorem groupOf_of_not_mem {fs : List Finding} {path : Text} (hnew : path ∉ fs.map (·.file)) :
    groupOf fs path = { path, hidden := false } := by
  have hnone : fs.filter (fun f => f.file = path) = [] := by
    rw [List.filter_eq_nil_iff]
    intro f hf he
    exact hnew (List.mem_map.mpr ⟨f, hf, of_decide_eq_true he⟩)
  rw [groupOf, hnone]

/-- Its first finding gets a group of its own. -/
theorem groupOf_append_new {fs : List Finding} {f : Finding} (h : f.hidden = false)
    (hnew : f.file ∉ fs.map (·.file)) :
    groupOf (fs ++ [f]) f.file = FileGroup.append { path := f.file } f := by
  rw [groupOf_append_self fs h, groupOf_of_not_mem hnew]
  simp [FileGroup.append, h]

theorem place_of_mem {paths : List Text} (hn : paths.Nodup) (fs : List Finding) {f : Finding}
    (h : f.hidden = false) (hmem : f.file ∈ paths) :
    place f (paths.map (groupOf fs)) = paths.map (groupOf (fs ++ [f])) := by
  induction paths with
  | nil => exact absurd hmem List.not_mem_nil
  | cons path paths ih =>
    rw [List.nodup_cons] at hn
    by_cases hp : path = f.file
    · have hrest : ∀ p ∈ paths, groupOf (fs ++ [f]) p = groupOf fs p := by
        intro p hmem
        exact groupOf_append_of_ne fs fun e => hn.1 (by rwa [hp, ← e])
      rw [List.map_cons, List.map_cons, List.map_congr_left hrest, place_cons_of_eq hp, hp,
        groupOf_append_self fs h]
    · have hrest : f.file ∈ paths := (List.mem_cons.mp hmem).resolve_left (Ne.symm hp)
      rw [List.map_cons, List.map_cons, place_cons_of_ne hp, ih hn.2 hrest,
        groupOf_append_of_ne fs hp]

theorem place_of_not_mem {paths : List Text} {fs : List Finding} {f : Finding}
    (h : f.hidden = false) (hmem : f.file ∉ paths) (hnew : f.file ∉ fs.map (·.file)) :
    place f (paths.map (groupOf fs)) = (paths ++ [f.file]).map (groupOf (fs ++ [f])) := by
  induction paths with
  | nil => simp [place, groupOf_append_new h hnew]
  | cons path paths ih =>
    rw [List.mem_cons, not_or] at hmem
    have hp : path ≠ f.file := Ne.symm hmem.1
    rw [List.map_cons, place_cons_of_ne hp, ih hmem.2, ← groupOf_append_of_ne fs hp]
    rfl

/-- Placing a finding in the groups of a list gives the groups of the list with it at the end. -/
theorem place_groupsOf (fs : List Finding) {f : Finding} (h : f.hidden = false) :
    place f (groupsOf fs) = groupsOf (fs ++ [f]) := by
  rw [groupsOf, groupsOf, List.map_append, List.map_singleton, eraseDups_concat]
  split_ifs with hmem
  · exact place_of_mem (nodup_eraseDups _) fs h (List.mem_eraseDups.mpr hmem)
  · exact place_of_not_mem h (mt List.mem_eraseDups.mp hmem) hmem

theorem content_place (f : Finding) (gs : List FileGroup) :
    (place f gs).map FileGroup.content = place f.content (gs.map FileGroup.content) := by
  induction gs with
  | nil => rfl
  | cons g gs ih =>
    by_cases hg : g.path = f.file
    · have hcontent : (g.append f).content = g.content.append f.content := by
        simp [FileGroup.append, FileGroup.content, Finding.content]
      have hg' : g.content.path = f.content.file := hg
      rw [List.map_cons, place_cons_of_eq hg, place_cons_of_eq hg', List.map_cons, hcontent]
    · have hg' : ¬g.content.path = f.content.file := hg
      rw [List.map_cons, place_cons_of_ne hg, place_cons_of_ne hg', List.map_cons, ih]

/-- A finding more in a store is one more in its content. -/
theorem content_insert (s : Store) (f : Finding) : (s.insert f).content = s.content.insert f.content := by
  have hfiles : (place f s.files).map FileGroup.content = place f.content (s.files.map FileGroup.content) :=
    content_place f s.files
  have hslot : s.content.nextSlot f.content.file = s.nextSlot f.file := nextSlot_content s f.file
  simp only [insert, content_index, content_files, hslot, ← hfiles]
  rfl

/-! ## Counting and looking up -/

theorem size_content (s : Store) : s.content.size = s.size := by
  simp [size, List.flatMap_map, List.length_flatMap]

theorem length_place (f : Finding) (gs : List FileGroup) :
    ((place f gs).flatMap (·.findings)).length = (gs.flatMap (·.findings)).length + 1 := by
  induction gs with
  | nil => rfl
  | cons g gs ih =>
    by_cases hg : g.path = f.file
    · rw [place_cons_of_eq hg, List.flatMap_cons, List.flatMap_cons, List.length_append,
        List.length_append, FileGroup.append, List.length_append, List.length_singleton]
      omega
    · rw [place_cons_of_ne hg, List.flatMap_cons, List.flatMap_cons, List.length_append,
        List.length_append, ih]
      omega

theorem isSome_findFile_iff (s : Store) (path : Text) :
    (s.findFile path).isSome ↔ Path.canonical path ∈ s.files.map (·.path) := by
  simp [findFile, group?, List.find?_isSome]

theorem groups_true (s : Store) : s.groups true = s.files := by simp [groups]

theorem traverse_true (s : Store) :
    s.traverse true = s.files.flatMap fun g => g.findings.map (g, ·) := by
  simp [traverse, groups_true, FileGroup.members]

/-- The calls of a visitor are those of the traversal, in its order. -/
theorem forEach_run (s : Store) (includeHidden : Bool) (seen : List (FileGroup × Finding)) :
    ((s.forEach includeHidden fun g f =>
      (modify (· ++ [(g, f)]) : StateM (List (FileGroup × Finding)) Unit)).run seen).2 =
      seen ++ s.traverse includeHidden := by
  unfold forEach
  induction s.traverse includeHidden generalizing seen with
  | nil => exact (List.append_nil seen).symm
  | cons p ps ih => simpa using ih (seen ++ [p])

end Store

/-! ## The log of a run -/

namespace Filters

/-- The distinct canonical paths of a log, in the order in which they occur first. -/
def pathsOf (log : List Submission) : List Text :=
  (log.map fun n => Path.canonical n.file).eraseDups

theorem pathsOf_concat (log : List Submission) (n : Submission) :
    pathsOf (log ++ [n]) =
      if Path.canonical n.file ∈ pathsOf log then pathsOf log else pathsOf log ++ [Path.canonical n.file] := by
  rw [pathsOf, List.map_append, List.map_singleton, eraseDups_concat]
  simp only [pathsOf, List.mem_eraseDups]

/-- The store holds what the additions of the log yield and nothing else, grouped by file, with the files of all
additions begun. -/
structure Grouped (s : Store) (begun log : List Submission) : Prop where
  accepted : log = begun.filter (·.backtrace.isOk)
  files : ∃ fs : List Finding, List.Forall₂ (fun f n => n.Yields f) fs log ∧
    s.content.files = (pathsOf begun).map (Store.groupOf fs)
  size : s.size = log.length

namespace Grouped

variable {s s' : Store} {begun log : List Submission}

theorem of_content_eq (h : Grouped s begun log) (hs : s'.content = s.content) : Grouped s' begun log where
  accepted := h.accepted
  files := hs ▸ h.files
  size := by rw [← Store.size_content, hs, Store.size_content, h.size]

theorem paths (h : Grouped s begun log) : s.files.map (·.path) = pathsOf begun := by
  obtain ⟨fs, -, hfiles⟩ := h.files
  have hcontent : s.files.map (·.path) = s.content.files.map (·.path) := by simp
  rw [hcontent, hfiles]
  simp [Function.comp_def]

/-- What is not the file of an addition begun is not the file of a finding. -/
theorem not_mem_files (h : Grouped s begun log) {fs : List Finding}
    (hfs : List.Forall₂ (fun f n => n.Yields f) fs log) {path : Text} (hpath : path ∉ pathsOf begun) :
    path ∉ fs.map (·.file) := by
  intro hmem
  obtain ⟨f, hf, rfl⟩ := List.mem_map.mp hmem
  obtain ⟨n, hn, hyields⟩ := exists_of_forall₂ hfs.flip hf
  have hbegun : n ∈ begun := List.mem_of_mem_filter (h.accepted ▸ hn)
  exact hpath (List.mem_eraseDups.mpr (List.mem_map.mpr ⟨n, hbegun, hyields.file.symm⟩))

theorem insert (h : Grouped s begun log) {n : Submission} {f : Finding} (hf : n.Yields f) :
    Grouped (s.insert f) (begun ++ [n]) (log ++ [n]) where
  accepted := by
    have hok : n.backtrace.isOk = true := by simp [hf.backtrace, Except.isOk, Except.toBool]
    rw [List.filter_append, ← h.accepted, List.filter_singleton, hok, cond_true]
  files := by
    obtain ⟨fs, hfs, hfiles⟩ := h.files
    refine ⟨fs ++ [f.content], List.rel_append hfs (.cons (hf.of_content_eq rfl) .nil), ?_⟩
    have hplace : (s.insert f).content.files = Store.place f.content ((pathsOf begun).map (Store.groupOf fs)) := by
      rw [Store.content_insert, ← hfiles]
      rfl
    have hfile : f.content.file = Path.canonical n.file := hf.file
    rw [hplace, pathsOf_concat, ← hfile]
    split_ifs with hmem
    · exact Store.place_of_mem (nodup_eraseDups _) fs rfl hmem
    · exact Store.place_of_not_mem rfl hmem (h.not_mem_files hfs hmem)
  size := by
    have hsize : (s.insert f).size = s.size + 1 := Store.length_place _ _
    rw [hsize, h.size, List.length_append, List.length_singleton]

/-- An addition that breaks off leaves its file, if that is new, and nothing in it. -/
theorem reserve (h : Grouped s begun log) {n : Submission} {e : Error} (he : n.BreaksOff e) :
    Grouped (s.reserve (Path.canonical n.file)) (begun ++ [n]) log where
  accepted := by
    have hok : n.backtrace.isOk = false := by simp [he.backtrace, Except.isOk, Except.toBool]
    rw [List.filter_append, ← h.accepted, List.filter_singleton, hok]
    simp
  files := by
    obtain ⟨fs, hfs, hfiles⟩ := h.files
    refine ⟨fs, hfs, ?_⟩
    rw [pathsOf_concat]
    split_ifs with hmem
    · rw [Store.reserve_of_mem (h.paths ▸ hmem), hfiles]
    · have hnew := Store.groupOf_of_not_mem (h.not_mem_files hfs hmem)
      rw [Store.reserve_of_not_mem (h.paths ▸ hmem), List.map_append, List.map_singleton, hnew, ← hfiles]
      simp [FileGroup.content]
  size := by
    rw [← h.size, Store.size, Store.size]
    unfold Store.reserve
    split <;> simp

end Grouped

/-- Only additions and clearings touch the groups, and they do to them what they do to the log. -/
theorem step_grouped {s : Filters} {begun : List Submission} {given : List (Submission × Ref)}
    (h : Grouped s.store begun (given.map (·.1))) (op : Op) :
    Grouped (s.step op).1.store (noteBegun begun op) ((s.noteGiven given op).map (·.1)) := by
  match op with
  | .add n =>
    rcases s.store.add_cases n with ⟨hc, hadd⟩ | ⟨e, he, hadd⟩ | ⟨f, hf, hadd⟩
    · simpa [step, noteBegun, noteGiven, hadd, hc, Except.map] using h
    · obtain ⟨c, hc⟩ := he.category
      simpa [step, noteBegun, noteGiven, hadd, hc, Except.map] using h.reserve he
    · simpa [step, noteBegun, noteGiven, hadd, hf.category, Except.map] using h.insert hf
  | .clear => exact ⟨rfl, ⟨[], .nil, rfl⟩, rfl⟩
  | .filter _ | .setMask .. | .setMasks .. | .apply .. | .recompute _ =>
    exact h.of_content_eq (s.content_step (by simp) (by simp))

theorem grouped_empty : Grouped {} [] (([] : List (Submission × Ref)).map (·.1)) := ⟨rfl, ⟨[], .nil, rfl⟩, rfl⟩

theorem grouped_run {s : Filters} {begun : List Submission} {given : List (Submission × Ref)}
    (h : Grouped s.store begun (given.map (·.1))) (ops : List Op) :
    Grouped (s.run ops).store (begunAlong begun ops) ((s.givenAlong given ops).map (·.1)) := by
  induction ops generalizing s begun given with
  | nil => exact h
  | cons op ops ih => exact ih (step_grouped h op)

/-! ## Reading the store -/

/-- The traversal goes through the additions of the log file by file. -/
theorem Grouped.traverse {s : Store} {begun log : List Submission} (h : Grouped s begun log) :
    List.Forall₂ (fun m n => m.1.path = Path.canonical n.file ∧ n.Yields m.2) (s.traverse true)
      ((pathsOf begun).flatMap fun path => log.filter fun n => Path.canonical n.file = path) := by
  obtain ⟨fs, hfs, hfiles⟩ := h.files
  have hmembers : (s.traverse true).map (fun m => (m.1.path, m.2.content)) =
      (pathsOf begun).flatMap fun path => (fs.filter fun f => f.file = path).map (path, ·) := by
    have hcontent : (s.traverse true).map (fun m => (m.1.path, m.2.content)) =
        s.content.files.flatMap fun g => g.findings.map (g.path, ·) := by
      simp [Store.traverse_true, List.map_flatMap, List.flatMap_map, Function.comp_def]
    rw [hcontent, hfiles, List.flatMap_map]
    rfl
  have hfile : ∀ path, List.Forall₂ (fun m n => m.1 = Path.canonical n.file ∧ n.Yields m.2)
      ((fs.filter fun f => f.file = path).map (path, ·)) (log.filter fun n => Path.canonical n.file = path) := by
    intro path
    have hiff : ∀ (f : Finding) (n : Submission), n.Yields f →
        ((decide (f.file = path) : Prop) ↔ decide (Path.canonical n.file = path)) := by
      intro f n hf
      rw [hf.file]
    have hsorted := (List.forall₂_and_left _ _).mpr
      ⟨fun f hf => of_decide_eq_true (List.mem_filter.mp hf).2, List.rel_filter hiff hfs⟩
    rw [List.forall₂_map_left_iff]
    exact hsorted.imp fun f n h => ⟨h.1.symm.trans h.2.file, h.2⟩
  have hall : List.Forall₂ (fun m n => m.1 = Path.canonical n.file ∧ n.Yields m.2)
      ((s.traverse true).map fun m => (m.1.path, m.2.content))
      ((pathsOf begun).flatMap fun path => log.filter fun n => Path.canonical n.file = path) := by
    rw [hmembers]
    exact List.rel_flatMap (List.forall₂_same.mpr fun _ _ => rfl) fun path _ (h : path = _) => h ▸ hfile path
  rw [List.forall₂_map_left_iff] at hall
  exact hall.imp fun m n hm => ⟨hm.1, hm.2.of_content_eq rfl⟩

/-- An addition with a line in its backtrace that is read as a number and is none. -/
def breakingOff : Submission where
  file := "a.c"
  category := .real .error
  message := .text "m"
  backtrace := .error (.backtraceBroken "invalid literal for int() with base 10: 'n/a'")

end Filters
end Findings
