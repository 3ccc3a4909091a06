import Findings.Proofs.Path.Directory
import Findings.Proofs.Tree.Filing
import Findings.Proofs.Tree.Stored
import Findings.Settings

/-!
# A checked directory from settings and one set later

A directory from settings is kept as it is given, one set later is put in canonical spelling. All paths
that a tree stores are canonical (`run_located`), so two trees give out the same if their directories strip
canonical paths alike and the same paths are seen from them (`alike_withDirectory`). This is so just for the
plain directories (`directory_from_settings_iff`): with any other, one report is enough to see a difference.
-/

namespace Findings

namespace Tree

/-! ## Trees that differ in their directory -/

/-- The tree with another checked directory, in the spelling given. -/
def withDirectory (t : Tree) (directory : Text) : Tree :=
  { t with policy := { t.policy with checkDirectory := directory } }

/-- What a report does to a tree does not depend on the directory. -/
theorem add_withDirectory (t : Tree) (directory : Text) (r : Report) :
    ((t.withDirectory directory).add r).state = (t.add r).state.withDirectory directory ∧
      (t.add r).state.policy.checkDirectory = t.policy.checkDirectory := by
  have hview : (t.withDirectory directory).view = t.view := rfl
  unfold add
  rw [hview]
  cases classify r.severity with
  | error e => exact ⟨rfl, rfl⟩
  | ok c =>
    cases hn : submission r c.1 with
    | error e =>
      simp only [hn]
      exact ⟨rfl, rfl⟩
    | ok n =>
      cases hadd : t.view.add n with
      | mk view result log =>
        cases result with
        | error e =>
          simp only [hn, hadd]
          exact ⟨rfl, rfl⟩
        | ok ref =>
          simp only [hn, hadd]
          exact ⟨rfl, rfl⟩

/-- An operation sets the directory, or neither uses nor changes it. -/
theorem step_withDirectory (t : Tree) (directory : Text) (op : Op) :
    ((t.withDirectory directory).step op).1 = (t.step op).1 ∨
      ((t.withDirectory directory).step op).1 = (t.step op).1.withDirectory directory ∧
        (t.step op).1.policy.checkDirectory = t.policy.checkDirectory := by
  cases op with
  | setCheckDirectory _ => exact .inl rfl
  | add r => exact .inr (add_withDirectory t directory r)
  | _ => exact .inr ⟨rfl, rfl⟩

/-- Along a run the difference stays until a directory is set. -/
theorem run_withDirectory (t : Tree) (directory : Text) (ops : List Op) :
    (t.withDirectory directory).run ops = t.run ops ∨
      (t.withDirectory directory).run ops = (t.run ops).withDirectory directory ∧
        (t.run ops).policy.checkDirectory = t.policy.checkDirectory := by
  induction ops generalizing t with
  | nil => exact .inr ⟨rfl, rfl⟩
  | cons op ops ih =>
    simp only [run]
    rcases step_withDirectory t directory op with hstep | ⟨hstep, hsame⟩
    · exact .inl (congrArg (·.run ops) hstep)
    · rw [hstep, ← hsame]
      exact ih _

/-! ## What trees give out -/

/-- Two trees give out the same: rows, reports and targets. -/
structure Alike (t t' : Tree) : Prop where
  rows : ∀ includeHidden, t.rows includeHidden = t'.rows includeHidden
  exported : ∀ format, t.exported format = t'.exported format
  target : ∀ r, (t.store.resolve r).map t.target = (t'.store.resolve r).map t'.target

theorem Alike.refl (t : Tree) : Alike t t := ⟨fun _ => rfl, fun _ => rfl, fun _ => rfl⟩

section Policies

variable {policy policy' : PathPolicy} {f : Finding}

theorem displayed_congr
    (h : ∀ p, Path.canonical p = p → Path.toDisplay policy p = Path.toDisplay policy' p)
    (hf : f.Located) : displayed policy f = displayed policy' f := by
  have hbacktrace : ∀ l ∈ f.backtrace, ({ l with file := Path.toDisplay policy l.file } : Location) =
      { l with file := Path.toDisplay policy' l.file } := by
    intro l hl
    rw [h l.file (hf.backtrace l hl)]
  unfold displayed
  rw [h f.file hf.file, List.map_congr_left hbacktrace]

theorem entry_congr
    (h : ∀ p, Path.canonical p = p → Path.toPersisted policy p = Path.toPersisted policy' p)
    (hf : f.Located) : Report.Entry.ofFinding policy f = Report.Entry.ofFinding policy' f := by
  have hbacktrace : ∀ l ∈ f.backtrace, ({ l with file := Path.toPersisted policy l.file } : Location) =
      { l with file := Path.toPersisted policy' l.file } := by
    intro l hl
    rw [h l.file (hf.backtrace l hl)]
  unfold Report.Entry.ofFinding
  rw [h f.file hf.file, List.map_congr_left hbacktrace]

end Policies

theorem fromDirectory_canonical {d : Text} (h : Path.Plain d) (path : Text) :
    fromDirectory (Path.canonical d) path = fromDirectory d path := by
  by_cases hd : d = []
  · rw [hd]
    rfl
  · have hjoin := Path.canonical_join_plain h hd path
    have hne := Path.canonical_ne_nil hd
    unfold fromDirectory
    simp only [hd, hne, List.append_assoc, List.cons_append, List.nil_append, hjoin]

/-- Located findings in located files. -/
theorem located_of_mem {s : Store} (h : s.Filed Finding.Located) {g : FileGroup} (hg : g ∈ s.files) :
    Path.canonical g.path = g.path ∧ ∀ f ∈ g.findings, f.Located := by
  have hlocated : ∀ f ∈ g.findings, f.Located := fun f hf =>
    Finding.located_content_iff.mp ((h g hg).mem f hf).2
  constructor
  · obtain ⟨f, hf⟩ := List.exists_mem_of_ne_nil _ (h g hg).nonempty
    rw [← ((h g hg).mem f hf).1]
    exact (hlocated f hf).file
  · exact hlocated

theorem located_of_mem_traverse {s : Store} (h : s.Filed Finding.Located) {includeHidden : Bool}
    {m : FileGroup × Finding} (hm : m ∈ s.traverse includeHidden) : m.2.Located := by
  obtain ⟨g, hg, hmember⟩ := List.mem_flatMap.mp hm
  obtain ⟨f, hf, rfl⟩ := List.mem_map.mp hmember
  exact (located_of_mem h (List.mem_filter.mp hg).1).2 f (List.mem_filter.mp hf).1

/-- Trees give out the same if their directories strip canonical paths alike and the same paths are seen
from them. -/
theorem alike_withDirectory {t : Tree} {directory : Text} (h : t.store.Filed Finding.Located)
    (hstrip : ∀ p, Path.canonical p = p →
      Path.strip p t.policy.checkDirectory = Path.strip p directory)
    (hfrom : ∀ path, fromDirectory t.policy.checkDirectory path = fromDirectory directory path) :
    Alike t (t.withDirectory directory) := by
  have hshown : ∀ p, Path.canonical p = p →
      Path.toDisplay t.policy p = Path.toDisplay (t.withDirectory directory).policy p := by
    intro p hp
    unfold Path.toDisplay
    rw [hstrip p hp]
    rfl
  have hsaved : ∀ p, Path.canonical p = p →
      Path.toPersisted t.policy p = Path.toPersisted (t.withDirectory directory).policy p := by
    intro p hp
    unfold Path.toPersisted
    rw [hstrip p hp]
    rfl
  constructor
  · intro includeHidden
    refine List.map_congr_left fun g hg => ?_
    obtain ⟨hpath, hlocated⟩ := located_of_mem h (List.mem_filter.mp hg).1
    unfold fileRow
    rw [hshown g.path hpath]
    congr 1
    refine List.map_congr_left fun e he => ?_
    have hmem := List.fst_mem_of_mem_zipIdx (List.mem_filter.mp he).1
    rw [displayed_congr hshown (hlocated e.1 hmem)]
    rfl
  · intro format
    have hentries : t.store.entries t.policy =
        t.store.entries (t.withDirectory directory).policy := by
      refine List.map_congr_left fun f hf => ?_
      obtain ⟨m, hm, rfl⟩ := List.mem_map.mp hf
      exact entry_congr hsaved (located_of_mem_traverse h hm)
    unfold exported Store.exported
    rw [hentries]
    rfl
  · intro r
    have htarget : t.target = (t.withDirectory directory).target := by
      funext f
      unfold target
      simp only [withDirectory, hfrom]
    rw [htarget]
    rfl

/-! ## Given and set later -/

/-- The tree from settings with the directory in them. -/
def givenDirectory (s : Settings) (applications : Registry) (directory : Text) : Tree :=
  { s with checkDirectory := directory }.tree applications

/-- The tree from the same settings without directory, which is set later. -/
def laterDirectory (s : Settings) (applications : Registry) (directory : Text) : Tree :=
  ({ s with checkDirectory := [] }.tree applications).setCheckDirectory directory

theorem laterDirectory_eq (s : Settings) (applications : Registry) (directory : Text) :
    laterDirectory s applications directory =
      (givenDirectory s applications directory).withDirectory (Path.canonical directory) := rfl

theorem alike_of_plain {d : Text} (h : Path.Plain d) (s : Settings) (applications : Registry)
    (ops : List Op) :
    Alike ((givenDirectory s applications d).run ops) ((laterDirectory s applications d).run ops) := by
  have hempty : (givenDirectory s applications d).store.Filed Finding.Located := Store.filed_empty 0
  rw [laterDirectory_eq]
  rcases run_withDirectory (givenDirectory s applications d) (Path.canonical d) ops with
    hrun | ⟨hrun, hsame⟩
  · rw [hrun]
    exact .refl _
  · have hd : ((givenDirectory s applications d).run ops).policy.checkDirectory = d := hsame
    rw [hrun]
    refine alike_withDirectory (run_located hempty ops) ?_ ?_
    · intro p hp
      rw [hd, Path.strip_canonical_directory h hp]
    · intro path
      rw [hd, fromDirectory_canonical h]

/-- One finding in a file right below the directory. -/
def oneBelow (directory : Text) : List Op :=
  [.add { file := .text (Path.fileBelow directory), severity := .text "error", message := .text [] }]

/-- The files of a listing with hidden files are the stored ones. -/
theorem rows_files (t : Tree) :
    (t.rows true).map (·.file) =
      t.store.content.files.map fun g => Path.toDisplay t.policy g.path := by
  have hgroups : t.store.groups true = t.store.files := List.filter_eq_self.mpr fun _ _ => rfl
  rw [rows, hgroups, Store.content_files, List.map_map, List.map_map]
  rfl

theorem rows_oneBelow {t : Tree} (hempty : t.store.files = []) (d : Text) :
    ((t.run (oneBelow d)).rows true).map (·.file) =
      [Path.toDisplay t.policy (Path.canonical (Path.fileBelow d))] := by
  obtain ⟨f, log, hfile, -, hshown, hadd⟩ :=
    add_texts t (Path.fileBelow d) "error" (.text []) (.text [])
  have hrun : t.run (oneBelow d) = { t with view := file t.view f } := by
    simp only [oneBelow, run, step, hadd]
    rfl
  have hcontent : t.view.store.content.files = [] := by
    rw [Store.content_files, show t.view.store.files = [] from hempty]
    rfl
  have hfiles : (file t.view f).store.content.files = [FileGroup.append { path := f.file } f] := by
    rw [content_file t.view hshown, hcontent]
    rfl
  rw [hrun, rows_files, ← hfile]
  change (file t.view f).store.content.files.map _ = _
  rw [hfiles]
  rfl

/-- A directory from settings and the same set later give out the same, whatever the settings are and
whatever is done with the tree, just when the directory is plain. -/
theorem directory_from_settings_iff (d : Text) :
    (∀ (s : Settings) (applications : Registry) (ops : List Op),
      Alike ((givenDirectory s applications d).run ops)
        ((laterDirectory s applications d).run ops)) ↔ Path.Plain d := by
  constructor
  · intro h
    by_contra hplain
    obtain ⟨hp, hne⟩ := Path.strip_fileBelow_ne hplain
    have hrows := congrArg (List.map (·.file)) ((h {} {} (oneBelow d)).rows true)
    rw [rows_oneBelow rfl, rows_oneBelow rfl, hp] at hrows
    exact hne (List.singleton_inj.mp hrows).symm
  · exact fun h => alike_of_plain h

/-- Given with two separators at its end, a directory takes nothing away; set later, it does. -/
theorem doubled_separator_not_alike :
    let given := (givenDirectory {} {} "/src//").run [.add unusedVariable]
    let later := (laterDirectory {} {} "/src//").run [.add unusedVariable]
    (given.rows true).map (·.file) = ["/src/a.cpp"] ∧ (later.rows true).map (·.file) = ["a.cpp"] ∧
      ¬Alike given later := by
  intro given later
  have hgiven : (given.rows true).map (·.file) = ["/src/a.cpp"] := by decide
  have hlater : (later.rows true).map (·.file) = ["a.cpp"] := by decide
  refine ⟨hgiven, hlater, fun h => ?_⟩
  rw [h.rows true, hlater] at hgiven
  exact absurd hgiven (by decide)

/-- One separator at the end or backslashes make no difference; a dot does. -/
example : Path.Plain "/src/" ∧ Path.Plain "C:\\work" ∧ ¬Path.Plain "/src/." := by decide

end Tree
end Findings
