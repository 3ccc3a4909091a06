import Findings.Proofs.Tree.OpenedFiles

/-!
# Shortened paths and back

A path that is shown without the checked directory may be reported again as it is shown, and is then looked
for below that directory. What stands below a directory in a canonical path is canonical, so it is stored
under the shown path (`Below.canonical_eq`), and the join with the directory leads back to the full path,
with two exceptions (`fromDirectory_below_iff`): what is left may look absolute, as a drive in the middle of a
path does, and a root brings a slash of its own to the join. For findings as they are reported and opened
this is `relative_and_back_iff`.
-/

namespace Findings

namespace Path

variable {d p b : Text}

/-- A path below a directory is absolute. -/
theorem Below.isAbsolute_path (hp : canonical p = p) (h : Below d p b) : isAbsolute p := by
  have hback : backslash ∉ p := hp ▸ backslash_not_mem_canonical p
  obtain ⟨habsolute, ⟨separators, -, hsplit⟩, -⟩ := (below_iff hback).mp h
  obtain ⟨rest, hleading⟩ : fold d <+: asPrefix (fold d) := by
    unfold asPrefix
    split_ifs
    · exact List.prefix_refl _
    · exact List.prefix_append _ _
  rw [← hleading, List.append_assoc] at hsplit
  have hlonger := isAbsolute_append (isAbsolute_fold habsolute) (hsplit ▸ hback)
  rwa [← hsplit] at hlonger

/-- What stands below a directory in a canonical path is canonical. -/
theorem Below.canonical_eq (hp : canonical p = p) (h : Below d p b) : canonical b = b := by
  obtain ⟨_, _, -, -, -, -, hcut⟩ := h.behind_slash (hp ▸ backslash_not_mem_canonical p)
  exact canonical_below hp hcut h.ne_nil h.relative

/-- Three slashes at the start count as one. -/
theorem canonical_three_slashes (hback : backslash ∉ b) (hhead : b.head? ≠ some slash) :
    canonical ([slash, slash, slash] ++ b) = canonical ([slash] ++ b) := by
  have hslash : backslash ≠ slash := by decide
  have hthree : fold ([slash, slash, slash] ++ b) = [slash, slash, slash] ++ b :=
    fold_eq_self (by simp [hback, hslash])
  have hone : fold ([slash] ++ b) = [slash] ++ b := fold_eq_self (by simp [hback, hslash])
  have hroot : root ([slash, slash, slash] ++ b) = [slash] := by
    have hstop : b.takeWhile (· = slash) = [] := by
      cases b with
      | nil => rfl
      | cons c b =>
        have hc : c ≠ slash := fun hc => hhead (congrArg some hc)
        exact List.takeWhile_cons_of_neg (by simpa using hc)
    simp [root, hstop]
  have hroot' : root ([slash] ++ b) = [slash] := root_append (.inr (.inl rfl)) hhead
  rw [canonical_of_ne_nil (by simp), canonical_of_ne_nil (by simp), hthree, hone, hroot, hroot']
  rfl

/-- Behind a root, the same components stay behind each root. -/
theorem Spelled.behind {start start' : Text} {parts : List Text} (h : Spelled start parts (start ++ b))
    (hstart : start ≠ []) (hroot : IsRoot start') (hstart' : start' ≠ []) :
    Spelled start' parts (start' ++ b) := by
  refine ⟨hroot, ?_, ?_⟩
  · have hresolved := h.resolved
    simp only [ne_eq, hstart, hstart', not_false_eq_true, decide_true] at hresolved ⊢
    exact hresolved
  · rw [List.append_cancel_left h.eq]

/-- Joined to a root with a slash between, a path behind a root is the one behind two slashes for the root
of one, and the one behind a single slash for the root of two. -/
theorem Spelled.join_root_iff {start : Text} {parts : List Text} (h : Spelled start parts (start ++ b))
    (hroot : IsRoot d) (hne : d ≠ []) (hleading : d <+: start) (hb : b ≠ []) :
    canonical (d ++ slash :: b) = start ++ b ↔ d = [slash] ∧ start = [slash, slash] := by
  have hstart : start ≠ [] := by
    rintro rfl
    exact hne (List.prefix_nil.mp hleading)
  have hbehind : ∀ {start'}, IsRoot start' → start' ≠ [] → canonical (start' ++ b) = start' ++ b :=
    fun hroot' hne' => (h.behind hstart hroot' hne').canonical_eq (by simp [hb])
  rcases hroot with rfl | rfl | rfl
  · exact absurd rfl hne
  · have htwo : canonical ([slash] ++ slash :: b) = [slash, slash] ++ b :=
      hbehind (.inr (.inr rfl)) (by simp)
    rw [htwo, List.append_cancel_right_eq]
    constructor
    · intro heq
      exact ⟨rfl, heq.symm⟩
    · intro heq
      exact heq.2.symm
  · have hjoin : b = Text.join [slash] parts := List.append_cancel_left h.eq
    have hhead : b.head? ≠ some slash := hjoin ▸ head_join h.resolved
    have hrooted : canonical ([slash] ++ b) = [slash] ++ b := hbehind (.inr (.inl rfl)) (by simp)
    have hback : backslash ∉ b := by
      intro hmem
      apply backslash_not_mem_canonical ([slash] ++ b)
      rw [hrooted]
      exact List.mem_append_right _ hmem
    have hone : canonical ([slash, slash] ++ slash :: b) = [slash] ++ b :=
      (canonical_three_slashes hback hhead).trans hrooted
    have hlength := hleading.length_le
    rw [hone, List.append_cancel_right_eq]
    constructor
    · intro heq
      rw [← heq] at hlength
      exact absurd hlength (by decide)
    · intro heq
      exact absurd heq.1 (by decide)

end Path

namespace Tree

/-- Seen from a canonical directory, what stands below it in a canonical path leads back to that path, unless
it looks absolute or the directory is a root; from one slash it does if the path starts with two. -/
theorem fromDirectory_below_iff {d p b : Text} (hd : Path.canonical d = d) (hp : Path.canonical p = p)
    (h : Path.Below d p b) :
    fromDirectory d b = p ↔
      ¬Path.isAbsolute b ∧ (Path.IsRoot d → d = [Path.slash] ∧ Path.root p = [Path.slash, Path.slash]) := by
  have hne : d ≠ [] := Path.ne_nil_of_isAbsolute h.absolute
  by_cases habsolute : Path.isAbsolute b
  · have hself : fromDirectory d b = b := fromDirectory_of_isAbsolute habsolute d
    have hb : b ≠ p := fun hb => absurd (congrArg List.length hb) (Nat.ne_of_lt h.length_lt)
    rw [hself]
    constructor
    · intro heq
      exact absurd heq hb
    · intro hrelative
      exact absurd habsolute hrelative.1
  · have hjoin : fromDirectory d b = Path.canonical (d ++ Path.slash :: b) :=
      fromDirectory_of_relative hne h.ne_nil habsolute
    rw [hjoin, and_iff_right habsolute]
    rcases h.cut hp with ⟨hroot, start, parts, hleading, hspelled, rfl⟩ | ⟨-, hroot, hsplit⟩
    · have hfold : Path.fold d = d := hd ▸ Path.fold_canonical d
      rw [hfold] at hroot hleading
      rw [hspelled.join_root_iff hroot hne hleading h.ne_nil, Path.root_append hspelled.root h.relative]
      exact (imp_iff_right hroot).symm
    · rw [hd] at hroot hsplit
      rw [← hsplit, hp]
      exact iff_of_true rfl fun h => absurd h hroot

/-- The file that is opened for a finding reported now. -/
def openedFile (t : Tree) (r : Report) : Option Text :=
  let o := t.add r
  match o.result with
  | .error _ => none
  | .ok ref => (o.state.store.resolve ref).map fun f => (o.state.target f).file

theorem openedFile_texts (t : Tree) (path label : Text) (message id : Value) :
    openedFile t { file := .text path, severity := .text label, message, id } =
      some (fromDirectory t.policy.checkDirectory (Path.canonical path)) := by
  have habout : Report.IsAbout { file := .text path, severity := .text label, message, id } path :=
    ⟨by simp [Report.filed, classify, submission, toLocations, Value.orEmpty_text, Except.bind, Except.map], rfl⟩
  have hopened := openedAfter_eq (t := t) habout List.not_mem_nil
  rw [run, run, step, policy_add] at hopened
  exact hopened

/-- A finding reported under the full path is opened there. One reported under the shortened path is opened
there as well just when that does not look absolute and the directory is no root, or is one slash and the
path starts with two. -/
theorem relative_and_back_iff {t : Tree} {d p : Text}
    (hdirectory : t.policy.checkDirectory = Path.canonical d) (hshort : t.policy.showFullPath = false)
    (hp : Path.canonical p = p) (hshortened : Path.toDisplay t.policy p ≠ p)
    (label : Text) (message id : Value) :
    openedFile t { file := .text p, severity := .text label, message, id } = some p ∧
      (openedFile t { file := .text (Path.toDisplay t.policy p), severity := .text label, message, id } =
          some p ↔
        ¬Path.isAbsolute (Path.toDisplay t.policy p) ∧
          (Path.IsRoot (Path.canonical d) →
            Path.canonical d = [Path.slash] ∧ Path.root p = [Path.slash, Path.slash])) := by
  have hdisplay : Path.toDisplay t.policy p = Path.strip p (Path.canonical d) := by
    unfold Path.toDisplay
    rw [hshort, hdirectory]
    rfl
  rw [hdisplay] at hshortened ⊢
  have hbelow : Path.Below (Path.canonical d) p (Path.strip p (Path.canonical d)) := by
    rcases Path.strip_cases p (Path.canonical d) with ⟨b, hb, hstrip⟩ | hself
    · rwa [hstrip]
    · exact absurd hself hshortened
  constructor
  · have hfull : fromDirectory (Path.canonical d) p = p := by
      unfold fromDirectory
      rw [if_pos (by simp [hbelow.isAbsolute_path hp])]
    rw [openedFile_texts, hdirectory, hp, hfull]
  · rw [openedFile_texts, hdirectory, hbelow.canonical_eq hp, Option.some_inj]
    exact fromDirectory_below_iff (Path.canonical_canonical d) hp hbelow

/-- The directory is set with a separator at its end, and files below it are opened under either path. -/
theorem src_relative_and_back :
    let t := ({} : Tree).setCheckDirectory "/src/"
    Path.toDisplay t.policy "/src/lib/a.c" = "lib/a.c" ∧
      openedFile t { file := .text "/src/lib/a.c", severity := .text "error", message := .text "m" } =
        some "/src/lib/a.c" ∧
      openedFile t { file := .text "lib/a.c", severity := .text "error", message := .text "m" } =
        some "/src/lib/a.c" := by
  intro t
  have hdisplay : Path.toDisplay t.policy "/src/lib/a.c" = "lib/a.c" := by decide
  have hshortened : Path.toDisplay t.policy "/src/lib/a.c" ≠ "/src/lib/a.c" := by decide
  obtain ⟨hfull, hrelative⟩ := relative_and_back_iff (t := t) (d := "/src/") (p := "/src/lib/a.c") rfl rfl
    (by decide) hshortened "error" (.text "m") (.text [])
  rw [hdisplay] at hrelative
  have hdirectory : ¬Path.IsRoot (Path.canonical "/src/") := by
    unfold Path.IsRoot
    decide
  exact ⟨hdisplay, hfull, hrelative.mpr ⟨by decide, fun hroot => absurd hroot hdirectory⟩⟩

/-- Below the root a slash too many is put in front, and a name that looks like a drive is not put behind
the directory. -/
theorem relative_but_not_back :
    let t := ({} : Tree).setCheckDirectory "/"
    let t' := ({} : Tree).setCheckDirectory "/src"
    Path.toDisplay t.policy "/a.c" = "a.c" ∧
      openedFile t { file := .text "/a.c", severity := .text "error", message := .text "m" } =
        some "/a.c" ∧
      openedFile t { file := .text "a.c", severity := .text "error", message := .text "m" } =
        some "//a.c" ∧
      Path.toDisplay t'.policy "/src/C:/a.c" = "C:/a.c" ∧
      openedFile t' { file := .text "C:/a.c", severity := .text "error", message := .text "m" } =
        some "C:/a.c" := by
  decide

end Tree
end Findings
