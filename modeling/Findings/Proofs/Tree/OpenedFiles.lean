import Findings.Proofs.Path.Depth
import Findings.Proofs.Tree.Accumulation

/-!
# The file that is opened for a report

A finding is opened at the last location of its report, or at the file of the report if it has none
(`Report.reportedFile`), however much is done in between (`openedAfter_eq`). A relative file is joined to the
checked directory there. Both may be given in any spelling: the file that is opened depends on no more than their
canonical spellings, unless the directory is a root (`openedAfter_respelled`), for what is joined to a path may be
put in canonical spelling first if it steps above no root of its own, and no file that does so is ever joined
(`joining_respects_spelling`).
-/

namespace Findings

namespace Path

theorem IsRooted.isAbsolute_canonical {v : Text} (h : IsRooted v) : isAbsolute (canonical v) := by
  obtain ⟨rest, hfold⟩ := h.exists_fold
  rw [← canonical_fold, hfold]
  exact isAbsolute_canonical_of_slash rfl

end Path

namespace Tree

/-- The file that a report is about: that of its last location, or its own if it has none. -/
def Report.reportedFile (r : Report) : Value := (r.backtrace.getLast?.map (·.1)).getD r.file

theorem Report.Yields.place_file {r : Report} {f : Finding} (h : r.Yields f) :
    r.reportedFile.toCanonicalPath = .ok (place f).file := by
  have hlast := getLast?_of_forall₂ (forall₂_of_toLocations h.backtrace)
  unfold reportedFile place
  generalize r.backtrace.getLast? = reported, f.backtrace.getLast? = located at hlast
  cases hlast with
  | none => exact h.file
  | some hlocation => exact toLocation_file hlocation

/-- The report is filed, and about the file `v` in this spelling. -/
structure Report.IsAbout (r : Report) (v : Text) : Prop where
  filed : ∃ f, r.filed = .ok f
  file : r.reportedFile = .text v

/-! ## Seen from a directory -/

theorem fromDirectory_of_isAbsolute {file : Text} (h : Path.isAbsolute file) (d : Text) :
    fromDirectory d file = file := by
  unfold fromDirectory
  rw [if_pos (by simp [h])]

theorem fromDirectory_of_relative {d file : Text} (hd : d ≠ []) (hne : file ≠ [])
    (h : ¬Path.isAbsolute file) : fromDirectory d file = Path.canonical (d ++ Path.slash :: file) := by
  unfold fromDirectory
  rw [if_neg (by simp [hd, hne, h]), List.append_assoc]
  rfl

/-- What is reported as `v`, seen from a directory `u`: the file itself if it is none or absolute, or both
joined as they are spelled. -/
def seenFrom (u v : Text) : Text :=
  if v = [] ∨ Path.isAbsolute (Path.canonical v) then Path.canonical v else Path.canonical (u ++ Path.slash :: v)

/-- Another spelling of the directory, and the canonical one of the file, lead to the same file. -/
theorem fromDirectory_respelled {d u : Text} (hd : Path.canonical d = Path.canonical u)
    (hu : ¬Path.IsRoot (Path.canonical u)) (v : Text) : fromDirectory d (Path.canonical v) = seenFrom u v := by
  unfold seenFrom
  by_cases hself : v = [] ∨ Path.isAbsolute (Path.canonical v)
  · rw [if_pos hself]
    rcases hself with rfl | habsolute
    · simp [fromDirectory, Path.canonical]
    · exact fromDirectory_of_isAbsolute habsolute d
  · rw [if_neg hself]
    rw [not_or] at hself
    have hne : d ≠ [] := by
      rintro rfl
      exact hu (.inl hd.symm)
    have hroot : ¬Path.StepsAboveRoot v := fun h => hself.2 h.1.isAbsolute_canonical
    rw [fromDirectory_of_relative hne (Path.canonical_ne_nil hself.1) hself.2,
      (Path.canonical_append_canonical_iff hu v).mpr hroot, ← hd, Path.canonical_join (hd ▸ hu)]

/-! ## Reported and opened -/

theorem policy_add (t : Tree) (r : Report) : (t.add r).state.policy = t.policy := by
  rw [add_eq]
  cases r.filed <;> rfl

/-- The file that is opened for a report, when more has been done after reporting it. -/
def openedAfter (t : Tree) (r : Report) (after : List Op) : Option Text :=
  let s := t.run (.add r :: after)
  match (t.add r).result with
  | .error _ => none
  | .ok ref => (s.store.resolve ref).map fun f => (s.target f).file

variable {t : Tree} {r : Report} {after : List Op} {u v w : Text}

/-- Until all is cleared, a finding is opened at the file that was reported, seen from the directory of then. -/
theorem openedAfter_eq (h : r.IsAbout v) (hclear : .clear ∉ after) :
    openedAfter t r after =
      some (fromDirectory (t.run (.add r :: after)).policy.checkDirectory (Path.canonical v)) := by
  obtain ⟨f, hfiled⟩ := h.filed
  have hresult : (t.add r).result = .ok (t.store.nextRef f.file) := by
    rw [add_eq, hfiled]
    rfl
  have hstep : (t.step (.add r)).2.result = .ok (.ref (t.store.nextRef f.file)) := by
    simp only [step, hresult]
    rfl
  obtain ⟨f', hy, hlife⟩ := run_reference hstep
  obtain ⟨hidden, hresolve⟩ := (hlife after).1 hclear
  have hplace : (place { f' with hidden }).file = Path.canonical v := by
    have hfile := hy.place_file
    rw [h.file, Value.toCanonicalPath_text] at hfile
    exact (Except.ok.inj hfile).symm
  unfold openedAfter
  simp only [hresult, hresolve, Option.map_some, target, hplace]

/-- A file is reported as `v` and opened later, before all is cleared, when the directory is spelled like `u`. -/
structure AsksFor (u v : Text) (t : Tree) (r : Report) (after : List Op) : Prop where
  about : r.IsAbout v
  kept : .clear ∉ after
  directory : Path.canonical (t.run (.add r :: after)).policy.checkDirectory = Path.canonical u

theorem openedAfter_respelled (h : AsksFor u v t r after) (hu : ¬Path.IsRoot (Path.canonical u)) :
    openedAfter t r after = some (seenFrom u v) := by
  rw [openedAfter_eq h.about h.kept, fromDirectory_respelled h.directory hu]

/-- Paths joined to one that leads to no root may be put in canonical spelling first, as may that one, just if
they do not step above a root of their own. The file that is opened for a report is the one joined to the directory
as both are spelled, and another spelling of either leads to the same file. -/
theorem joining_respects_spelling (hne : u ≠ []) (hone : Path.canonical u ≠ [Path.slash])
    (htwo : Path.canonical u ≠ [Path.slash, Path.slash]) :
    (∀ v, Path.canonical (u ++ Path.slash :: v) =
        Path.canonical (Path.canonical u ++ Path.slash :: Path.canonical v) ↔ ¬Path.StepsAboveRoot v) ∧
    ∀ v t r after, AsksFor u v t r after →
      openedAfter t r after = some (seenFrom u v) ∧
      ∀ w t' r' after', Path.canonical w = Path.canonical v → AsksFor u w t' r' after' →
        openedAfter t' r' after' = openedAfter t r after := by
  have hroot : ¬Path.IsRoot (Path.canonical u) := by
    rintro (hnil | hslash | hslashes)
    · exact Path.canonical_ne_nil hne hnil
    · exact hone hslash
    · exact htwo hslashes
  refine ⟨fun v => Path.canonical_append_canonical_iff hroot v, ?_⟩
  intro v t r after hasks
  have hopened := openedAfter_respelled hasks hroot
  refine ⟨hopened, fun w t' r' after' hspelled hasks' => ?_⟩
  rw [hopened, openedAfter_eq hasks'.about hasks'.kept, hspelled,
    fromDirectory_respelled hasks'.directory hroot]

/-- A directory from settings with a separator at its end, one that is set after the report, and a file in the
folder beside it, traced and not traced. -/
theorem beside_in_two_spellings :
    let given : Tree := { policy := { checkDirectory := "C:\\work\\app\\" } }
    let traced : Report :=
      { file := .text "a.c", severity := .text "error", message := .text "m",
        backtrace := [(.text "b.c", .int 3), (.text "..\\lib\\.\\x.c", .int 7)] }
    let plain : Report := { file := .text "../lib/x.c", severity := .text "odd", message := .text "m" }
    let later : List Op := [.rows true, .setCheckDirectory "C:/work//old/../app"]
    Path.canonical ("C:\\work\\app\\" ++ Path.slash :: "..\\lib\\.\\x.c") =
        Path.canonical (Path.canonical "C:\\work\\app\\" ++ Path.slash :: Path.canonical "..\\lib\\.\\x.c") ∧
      openedAfter given traced [] = some "C:/work/lib/x.c" ∧
      openedAfter {} plain later = openedAfter given traced [] := by
  intro given traced plain later
  obtain ⟨hjoin, hopened⟩ := joining_respects_spelling (u := "C:\\work\\app\\") (by decide) (by decide) (by decide)
  have htraced : AsksFor "C:\\work\\app\\" "..\\lib\\.\\x.c" given traced [] :=
    ⟨⟨⟨_, rfl⟩, rfl⟩, List.not_mem_nil, rfl⟩
  have hplain : AsksFor "C:\\work\\app\\" "../lib/x.c" {} plain later :=
    ⟨⟨⟨_, rfl⟩, rfl⟩, by simp [later], by decide⟩
  obtain ⟨hfile, hsame⟩ := hopened _ _ _ _ htraced
  refine ⟨(hjoin _).mpr fun habove => absurd habove.1 (by decide), ?_, hsame _ _ _ _ (by decide) hplain⟩
  rw [hfile]
  decide

/-- The canonical spelling of a path with a step up from its root has lost that step, which takes a component
away when the path is joined as it is. -/
theorem step_above_root_lost :
    let u : Text := "/src"
    let v : Text := "/../c"
    u ≠ [] ∧ Path.canonical u ≠ [Path.slash] ∧ Path.canonical u ≠ [Path.slash, Path.slash] ∧
      Path.canonical (u ++ Path.slash :: v) = "/c" ∧
      Path.canonical (Path.canonical u ++ Path.slash :: Path.canonical v) = "/src/c" ∧
      Path.canonical (u ++ Path.slash :: v) ≠
        Path.canonical (Path.canonical u ++ Path.slash :: Path.canonical v) := by
  decide

end Tree
end Findings
