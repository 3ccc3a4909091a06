import Findings.Path.Strip
import Findings.Proofs.Path.NormalForm
import Mathlib.Data.List.Infix
import Mathlib.Data.List.TakeWhile

/-!
# Stripping a directory twice

`Below d p b` says what stripping looks for: `d` is absolute, and `p` is `d`, separators and then `b`.
`strip` gives back the part below the directory if there is one, and the path itself otherwise
(`strip_eq_of_below`, `strip_eq_self`).

A part below a directory never starts with a slash, so it cannot lie below a directory that does
(`Below.hasDrive`). It can lie below a directory that starts with a drive: stripping is idempotent on all
paths but those that repeat such a directory (`strip_idempotent_iff`), and `strip_not_idempotent` is one
that does.
-/

namespace Findings.Path

/-! ## What stands below a directory -/

/-- `t` in the spelling in which it is compared with `directory`. -/
def spelledFor (directory t : Text) : Text := if directory.contains backslash then fold t else t

/-- `below` is what stands in `path` behind an absolute `directory` and its separators. -/
structure Below (directory path below : Text) : Prop where
  absolute : isAbsolute directory
  split : ∃ separators : Text, (∀ c ∈ separators, c = slash) ∧
    spelledFor directory path =
      asPrefix (spelledFor directory directory) ++ (separators ++ below)
  ne_nil : below ≠ []
  relative : below.head? ≠ some slash

theorem dropWhile_slash {separators below : Text} (h : ∀ c ∈ separators, c = slash)
    (hbelow : below.head? ≠ some slash) :
    (separators ++ below).dropWhile (· = slash) = below := by
  refine Text.dropWhile_append_stop (fun c hc => decide_eq_true (h c hc)) fun c hc => ?_
  rw [decide_eq_true_eq]
  rintro rfl
  exact hbelow hc

theorem ne_nil_of_isAbsolute {d : Text} (h : isAbsolute d) : d ≠ [] := by
  rintro rfl
  exact absurd h (by decide)

theorem asPrefix_ne_nil (d : Text) : asPrefix d ≠ [] := by
  unfold asPrefix
  split_ifs with h
  · rintro rfl
    exact absurd h (by decide)
  · simp

theorem Below.spelledFor_ne_nil {d p b : Text} (h : Below d p b) : spelledFor d p ≠ [] := by
  obtain ⟨separators, -, hp⟩ := h.split
  simp [hp, asPrefix_ne_nil]

/-- Stripping in terms of the spelling for the directory. -/
theorem strip_eq (p : Text) {d : Text} (hp : p ≠ []) (hd : isAbsolute d) :
    strip p d =
      match (asPrefix (spelledFor d d)).isPrefixOf? (spelledFor d p) with
      | none => p
      | some rest =>
        match rest.dropWhile (· = slash) with
        | [] => p
        | below => below := by
  unfold strip spelledFor
  have hgiven : ¬(p = [] || d = [] || !isAbsolute d) = true := by
    simp [hp, hd, ne_nil_of_isAbsolute hd]
  rw [if_neg hgiven]
  split_ifs <;> rfl

theorem strip_eq_of_below {d p b : Text} (h : Below d p b) : strip p d = b := by
  obtain ⟨separators, hseparators, hsplit⟩ := h.split
  have hp : p ≠ [] := by
    rintro rfl
    exact h.spelledFor_ne_nil (by unfold spelledFor; split_ifs <;> rfl)
  rw [strip_eq p hp h.absolute, List.isPrefixOf?_eq_some_iff_append_eq.mpr hsplit.symm]
  simp only [dropWhile_slash hseparators h.relative]
  cases b with
  | nil => exact absurd rfl h.ne_nil
  | cons c r => rfl

/-- Stripping gives the part below the directory, or the path where nothing is below. -/
theorem strip_cases (p d : Text) :
    (∃ b, Below d p b ∧ strip p d = b) ∨ strip p d = p := by
  by_cases hp : p = []
  · exact .inr (by simp [strip, hp])
  by_cases hd : isAbsolute d
  · rw [strip_eq p hp hd]
    cases hrest : (asPrefix (spelledFor d d)).isPrefixOf? (spelledFor d p) with
    | none => exact .inr rfl
    | some rest =>
      have hsplit := List.isPrefixOf?_eq_some_iff_append_eq.mp hrest
      cases hb : rest.dropWhile (· = slash) with
      | nil => exact .inr (by simp only [hb])
      | cons c r =>
        refine .inl ⟨c :: r, ⟨hd, ⟨rest.takeWhile (· = slash), ?_, ?_⟩, by simp, ?_⟩, by simp only [hb]⟩
        · intro x hx
          simpa using List.mem_takeWhile_imp hx
        · rw [← hb, List.takeWhile_append_dropWhile, hsplit]
        · have hc := List.head_dropWhile_not (· = slash) (l := rest) (by simp [hb])
          simpa [hb] using hc
  · exact .inr (by simp [strip, hd])

theorem strip_eq_self {p d : Text} (h : ¬∃ b, Below d p b) : strip p d = p := by
  rcases strip_cases p d with ⟨b, hb, -⟩ | hself
  · exact absurd ⟨b, hb⟩ h
  · exact hself

/-- Stripping leaves no characters but those of the path, and slashes. -/
theorem all_strip {q : CodePoint → Bool} (hslash : q slash) {p : Text} (h : p.all q) (d : Text) :
    (strip p d).all q := by
  rcases strip_cases p d with ⟨b, hbelow, heq⟩ | heq
  · obtain ⟨separators, -, hsplit⟩ := hbelow.split
    have hspelled : (spelledFor d p).all q := by
      unfold spelledFor
      split_ifs
      · exact all_fold hslash h
      · exact h
    rw [hsplit, List.all_append, List.all_append, Bool.and_eq_true, Bool.and_eq_true] at hspelled
    rw [heq]
    exact hspelled.2.2
  · rw [heq]
    exact h

/-! ## Stripping again -/

/-- What stands below a directory is spelled as the directory asks for. -/
theorem Below.spelledFor_self {d p b : Text} (h : Below d p b) : spelledFor d b = b := by
  obtain ⟨separators, -, hp⟩ := h.split
  unfold spelledFor at hp ⊢
  split_ifs at hp ⊢
  · refine fold_eq_self fun hb => backslash_not_mem_fold p ?_
    rw [hp]
    simp [hb]
  · rfl

theorem Below.length_lt {d p b : Text} (h : Below d p b) : b.length < p.length := by
  obtain ⟨separators, -, hp⟩ := h.split
  have hlength : (spelledFor d p).length = p.length := by
    unfold spelledFor fold
    split_ifs <;> simp
  have hpos := List.length_pos_iff.mpr (asPrefix_ne_nil (spelledFor d d))
  rw [← hlength, hp]
  simp only [List.length_append]
  omega

theorem hasDrive_unfold (d : Text) : hasDrive (unfold d) = hasDrive d := by
  match d with
  | [] | [_] => rfl
  | a :: b :: _ =>
    have hletter : isAsciiLetter (if a = slash then backslash else a) = isAsciiLetter a := by
      split_ifs with h
      · subst h; decide
      · rfl
    have hcolon : (if b = slash then backslash else b) = .ofChar ':' ↔ b = .ofChar ':' := by
      split_ifs with h
      · subst h; decide
      · rfl
    simp [hasDrive, unfold, hletter, hcolon]

theorem head_of_extended {p rest : Text} (h : extended? p = some rest) :
    p.head? = some backslash := by
  unfold extended? at h
  split_ifs at h with hstart
  obtain ⟨r, rfl⟩ := List.isPrefixOf_iff_prefix.mp hstart
  rfl

theorem head_of_isNetworkShare {p : Text} (h : isNetworkShare p) : p.head? = some backslash := by
  unfold isNetworkShare at h
  split at h
  · simp only [Bool.and_eq_true, decide_eq_true_eq] at h
    rw [List.head?_cons, h.1.1.1]
  · cases h

theorem head_of_hasVolumeAndRoot {p : Text} (h : hasVolumeAndRoot p) :
    p.head? = some backslash ∨ hasDrive p := by
  unfold hasVolumeAndRoot at h
  cases he : extended? p with
  | some rest => exact .inl (head_of_extended he)
  | none =>
    simp only [he, Bool.false_and] at h
    split_ifs at h with hshare hdrive
    · exact .inl (head_of_isNetworkShare hshare)
    · exact .inr hdrive

/-- An absolute path starts with a separator or with a drive. -/
theorem head_of_isAbsolute {d : Text} (h : isAbsolute d) :
    d.head? = some slash ∨ d.head? = some backslash ∨ hasDrive d := by
  unfold isAbsolute at h
  rcases Bool.or_eq_true_iff.mp h with h | h
  · exact .inl (of_decide_eq_true h)
  rcases head_of_hasVolumeAndRoot h with h | h
  · cases d with
    | nil => cases h
    | cons c r =>
      by_cases hc : c = slash
      · exact .inl (congrArg some hc)
      · refine .inr (.inl ?_)
        simpa [unfold, hc] using h
  · exact .inr (.inr (hasDrive_unfold d ▸ h))

/-- A directory that starts with a separator is compared as one that starts with a slash. -/
theorem head_asPrefix {d : Text} (h : d.head? = some slash ∨ d.head? = some backslash) :
    (asPrefix (spelledFor d d)).head? = some slash := by
  have hd : (spelledFor d d).head? = some slash := by
    cases d with
    | nil => simp at h
    | cons c r =>
      unfold spelledFor
      split_ifs with hback
      · by_cases hc : c = backslash
        · simp [fold, hc]
        · simpa [fold, hc] using h
      · have hc : c ≠ backslash := by
          rintro rfl
          exact hback (by simp)
        simpa [hc] using h
  unfold asPrefix
  split_ifs
  · exact hd
  · rw [List.head?_append, hd, Option.some_or]

/-- Only a directory that starts with a drive can stand below itself. -/
theorem Below.hasDrive {d p b b' : Text} (h : Below d p b) (h' : Below d b b') : hasDrive d := by
  by_contra hdrive
  have hd : d.head? = some slash ∨ d.head? = some backslash := by
    simpa [hdrive] using head_of_isAbsolute h.absolute
  obtain ⟨separators, -, hb⟩ := h'.split
  rw [h.spelledFor_self] at hb
  apply h.relative
  rw [hb, List.head?_append, head_asPrefix hd, Option.some_or]

/-- The path goes on below the directory with the directory once more, and something below that. -/
def Repeats (d p : Text) : Prop := ∃ b b', Below d p b ∧ Below d b b'

theorem strip_strip_eq_iff (p d : Text) : strip (strip p d) d = strip p d ↔ ¬Repeats d p := by
  constructor
  · rintro h ⟨b, b', hb, hb'⟩
    rw [strip_eq_of_below hb, strip_eq_of_below hb'] at h
    exact absurd (congrArg List.length h) (Nat.ne_of_lt hb'.length_lt)
  · intro h
    rcases strip_cases p d with ⟨b, hb, hstrip⟩ | hself
    · rw [hstrip]
      exact strip_eq_self fun ⟨b', hb'⟩ => h ⟨b, b', hb, hb'⟩
    · rw [hself, hself]

/-- Stripping a directory twice is stripping it once just for the paths that do not repeat it; only a
directory that starts with a drive can be repeated. The same holds of showing and of saving a path, where
the policy does not ask for full paths. -/
theorem strip_idempotent_iff (p d : Text) (policy : PathPolicy) :
    (strip (strip p d) d = strip p d ↔ ¬Repeats d p) ∧
      (Repeats d p → hasDrive d) ∧
      (toDisplay policy (toDisplay policy p) = toDisplay policy p ↔
        policy.showFullPath ∨ ¬Repeats policy.checkDirectory p) ∧
      (toPersisted policy (toPersisted policy p) = toPersisted policy p ↔
        policy.saveFullPath ∨ ¬Repeats policy.checkDirectory p) := by
  refine ⟨strip_strip_eq_iff p d, ?_, ?_, ?_⟩
  · rintro ⟨b, b', hb, hb'⟩
    exact hb.hasDrive hb'
  · unfold toDisplay
    cases policy.showFullPath with
    | true => simp
    | false => simpa using strip_strip_eq_iff p policy.checkDirectory
  · unfold toPersisted
    cases policy.saveFullPath with
    | true => simp
    | false => simpa using strip_strip_eq_iff p policy.checkDirectory

/-- A file whose name is the directory it lies in, drive and all. -/
theorem repeated_drive : Repeats "C:/p" "C:/p/C:/p/x" ∧ hasDrive "C:/p" := by
  have hfirst : Below "C:/p" "C:/p/C:/p/x" "C:/p/x" :=
    ⟨by decide, ⟨[], by simp, by decide⟩, by decide, by decide⟩
  have hsecond : Below "C:/p" "C:/p/x" "x" :=
    ⟨by decide, ⟨[], by simp, by decide⟩, by decide, by decide⟩
  have h : Repeats "C:/p" "C:/p/C:/p/x" := ⟨_, _, hfirst, hsecond⟩
  exact ⟨h, (strip_idempotent_iff "C:/p/C:/p/x" "C:/p" {}).2.1 h⟩

/-- The directory is taken away once more from what was left the first time. -/
theorem strip_not_idempotent :
    strip "C:/p/C:/p/x" "C:/p" = "C:/p/x" ∧ strip "C:/p/x" "C:/p" = "x" ∧
      strip (strip "C:/p/C:/p/x" "C:/p") "C:/p" ≠ strip "C:/p/C:/p/x" "C:/p" := by
  decide

end Findings.Path
