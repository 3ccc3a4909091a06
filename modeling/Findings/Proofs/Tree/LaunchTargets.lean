import Findings.Proofs.Path.Drives
import Findings.Proofs.Tree.CheckDirectory
import Findings.Proofs.Tree.OpenedFiles

/-!
# Targets below an absolute directory

All paths that a tree stores are canonical, and so is a directory that was set. Seen from an absolute one, a
stored path is absolute if it is so itself or the directory starts with a slash; from a directory on a drive only
if the path does not step out of the drive (`isAbsolute_fromDirectory_iff`). For the targets of the findings that
a run stores this is `targets_absolute_iff`; `target_off_the_drive` is one that is not absolute.
-/

namespace Findings.Tree

theorem isAbsolute_fromDirectory_iff {d file : Text} (hd : Path.canonical d = d) (habsolute : Path.isAbsolute d)
    (hfile : Path.canonical file = file) (hne : file ≠ []) :
    Path.isAbsolute (fromDirectory d file) ↔
      Path.isAbsolute file ∨ d.head? = some Path.slash ∨ Path.StaysAbsolute d file := by
  by_cases hself : Path.isAbsolute file
  · rw [fromDirectory_of_isAbsolute hself]
    simp [hself]
  · have hjoin : fromDirectory d file = Path.canonical (d ++ Path.slash :: file) :=
      fromDirectory_of_relative (Path.ne_nil_of_isAbsolute habsolute) hne hself
    have hrelative : file.head? ≠ some Path.slash := fun hhead => hself (by simp [Path.isAbsolute, hhead])
    rw [hjoin, or_iff_right hself]
    by_cases hroot : d.head? = some Path.slash
    · have hhead : (d ++ Path.slash :: file).head? = some Path.slash := by
        rw [List.head?_append, hroot, Option.some_or]
      exact iff_of_true (Path.isAbsolute_canonical_of_slash hhead) (.inl hroot)
    · rw [or_iff_right hroot]
      exact Path.isAbsolute_canonical_drive_iff hd habsolute hroot hfile hne hrelative

theorem canonical_place {f : Finding} (h : f.Located) :
    Path.canonical (place f).file = (place f).file := by
  unfold place
  cases hlast : f.backtrace.getLast? with
  | none => exact h.file
  | some l => exact h.backtrace l (List.mem_of_getLast? hlast)

/-- In every state of a tree, with an absolute directory that was set, the target of a stored finding with a
file is absolute just if the file is, or the directory starts with a slash, or the file does not step out of the
directory's drive. The settings for shown and saved paths make no difference to any target. -/
theorem targets_absolute_iff (mask : Mask) (policy : PathPolicy) (applications : Registry) (ops : List Op) :
    let t := ({ view := { mask }, policy, applications } : Tree).run ops
    (∀ d, t.policy.checkDirectory = Path.canonical d → Path.isAbsolute (Path.canonical d) →
      ∀ g ∈ t.store.files, ∀ f ∈ g.findings, (place f).file ≠ [] →
        (Path.isAbsolute (t.target f).file ↔
          Path.isAbsolute (place f).file ∨ (Path.canonical d).head? = some Path.slash ∨
            Path.StaysAbsolute (Path.canonical d) (place f).file)) ∧
    ∀ f showFullPath saveFullPath saveAllErrors,
      (t.updateSettings showFullPath saveFullPath saveAllErrors).state.target f = t.target f := by
  intro t
  refine ⟨fun d hdirectory habsolute g hg f hf hne => ?_, fun _ _ _ _ => rfl⟩
  have hstored : t.store.Filed Finding.Located := run_located (Store.filed_empty 0) ops
  have hlocated : f.Located := (located_of_mem hstored hg).2 f hf
  rw [target, hdirectory]
  exact isAbsolute_fromDirectory_iff (Path.canonical_canonical d) habsolute (canonical_place hlocated) hne

/-- A tree with a directory that was set and a finding whose backtrace ends in a file. -/
def tracedTo (directory file : Text) : Tree :=
  ({} : Tree).run [.setCheckDirectory directory,
    .add { file := .text "a.c", severity := .text "error", message := .text "m",
           backtrace := [(.text "b.c", .int 3), (.text file, .int 7)] }]

/-- One step up from a directory that is three components deep, and a change of all settings. -/
theorem up_on_the_drive :
    let t := tracedTo "C:\\work\\app\\" "..\\lib\\x.c"
    ∃ g ∈ t.store.files, ∃ f ∈ g.findings,
      Path.isAbsolute t.policy.checkDirectory ∧ (place f).file = "../lib/x.c" ∧
        (t.target f).file = "C:/work/lib/x.c" ∧ Path.isAbsolute (t.target f).file ∧
        (t.updateSettings true true false).state.target f = t.target f := by
  intro t
  obtain ⟨habsolute, hflags⟩ := targets_absolute_iff {} {} {} [.setCheckDirectory "C:\\work\\app\\",
    .add { file := .text "a.c", severity := .text "error", message := .text "m",
           backtrace := [(.text "b.c", .int 3), (.text "..\\lib\\x.c", .int 7)] }]
  refine ⟨_, List.mem_cons_self, _, List.mem_cons_self, by decide, by decide, by decide, ?_, hflags _ _ _ _⟩
  exact (habsolute "C:\\work\\app\\" rfl (by decide) _ List.mem_cons_self _ List.mem_cons_self (by decide)).mpr
    (.inr (.inr (by decide)))

/-- Two steps up from a directory two components deep the drive is gone. -/
theorem target_off_the_drive :
    let t := tracedTo "C:/a" "../../x.c"
    ∃ g ∈ t.store.files, ∃ f ∈ g.findings,
      Path.isAbsolute t.policy.checkDirectory ∧ (place f).file = "../../x.c" ∧
        (t.target f).file = "x.c" ∧ ¬Path.isAbsolute (t.target f).file := by
  intro t
  exact ⟨_, List.mem_cons_self, _, List.mem_cons_self, by decide, by decide, by decide, by decide⟩

end Findings.Tree
