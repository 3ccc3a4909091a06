import Findings.Proofs.Path.Joining
import Findings.Proofs.Path.Strip

/-!
# Directories as they are given

Paths are stored in canonical spelling, and a directory may be given in any. A directory takes something
away from canonical paths (`TakesAway`) when it is absolute and is its canonical spelling, backslashes and
one separator at its end apart: if anything stands below it, it is spelled so (`takesAway_of_below`). Where a
directory takes away just what its canonical spelling does, the two strip all canonical paths alike
(`strip_canonical_directory`); where not, they part on the path `fileBelow directory`
(`strip_fileBelow_ne`).
-/

namespace Findings.Path

/-! ## Absolute paths -/

theorem hasVolumeAndRoot_of_head {t : Text} (h : t.head? ≠ some backslash) :
    hasVolumeAndRoot t = (hasDrive t && (t.drop 2).head? = some backslash) := by
  have hextended : extended? t = none := by
    cases he : extended? t with
    | none => rfl
    | some rest => exact absurd (head_of_extended he) h
  have hshare : isNetworkShare t = false :=
    Bool.eq_false_iff.mpr fun hshare => h (head_of_isNetworkShare hshare)
  unfold hasVolumeAndRoot
  simp only [hextended, hshare, Bool.false_eq_true, ↓reduceIte, Bool.false_and]
  cases hasDrive t <;> rfl

theorem head_unfold {t : Text} (h : backslash ∉ t) :
    (unfold t).head? = some backslash ↔ t.head? = some slash := by
  cases t with
  | nil => simp [unfold]
  | cons c t =>
    have hc : c ≠ backslash := fun hc => h (hc ▸ List.mem_cons_self)
    by_cases hslash : c = slash <;> simp [unfold, hslash, hc]

/-- Spelled with slashes, a path is absolute if it starts with one, or with a drive and then one. -/
theorem isAbsolute_iff {t : Text} (h : backslash ∉ t) :
    isAbsolute t ↔ t.head? = some slash ∨ (hasDrive t ∧ (t.drop 2).head? = some slash) := by
  by_cases hhead : t.head? = some slash
  · simp [isAbsolute, hhead]
  have hunfold : (unfold t).head? ≠ some backslash := mt (head_unfold h).mp hhead
  have hdrop : (unfold t).drop 2 = unfold (t.drop 2) := List.map_drop.symm
  have hrest : backslash ∉ t.drop 2 := fun hmem => h (List.mem_of_mem_drop hmem)
  simp [isAbsolute, hhead, hasVolumeAndRoot_of_head hunfold, hasDrive_unfold, hdrop,
    head_unfold hrest]

theorem isAbsolute_append {t rest : Text} (h : isAbsolute t) (hback : backslash ∉ t ++ rest) :
    isAbsolute (t ++ rest) := by
  have ht : backslash ∉ t := fun hmem => hback (List.mem_append_left rest hmem)
  rw [isAbsolute_iff hback]
  rcases (isAbsolute_iff ht).mp h with h | ⟨hdrive, h⟩
  · exact .inl (by rw [List.head?_append, h, Option.some_or])
  · match t with
    | [] | [_] => simp at h
    | a :: b :: t =>
      refine .inr ⟨hdrive, ?_⟩
      change (t ++ rest).head? = some slash
      rw [List.head?_append, show t.head? = some slash from h, Option.some_or]

theorem unfold_fold (t : Text) : unfold (fold t) = unfold t := by
  have hboth : ∀ c : CodePoint, (if (if c = backslash then slash else c) = slash then backslash
      else if c = backslash then slash else c) = if c = slash then backslash else c := by
    intro c
    by_cases hback : c = backslash
    · subst hback
      decide
    · simp [hback]
  rw [unfold, fold, List.map_map]
  exact List.map_congr_left fun c _ => hboth c

theorem isAbsolute_fold {t : Text} (h : isAbsolute t) : isAbsolute (fold t) := by
  unfold isAbsolute at h ⊢
  rw [unfold_fold]
  rcases Bool.or_eq_true_iff.mp h with h | h
  · refine Bool.or_eq_true_iff.mpr (.inl ?_)
    cases t with
    | nil => simp at h
    | cons c t =>
      obtain rfl : c = slash := by simpa using h
      exact decide_eq_true (congrArg some (by decide))
  · exact Bool.or_eq_true_iff.mpr (.inr h)

/-! ## Directories in front of canonical paths -/

variable {d p b : Text}

theorem asPrefix_of_endsInSlash {t : Text} (h : EndsInSlash t) : asPrefix t = t := by
  unfold asPrefix Text.endsWithChar
  exact if_pos (decide_eq_true (List.getLast?_eq_some_iff.mpr h))

theorem asPrefix_of_not_endsInSlash {t : Text} (h : ¬EndsInSlash t) : asPrefix t = t ++ [slash] := by
  unfold asPrefix Text.endsWithChar
  exact if_neg fun hlast => h (List.getLast?_eq_some_iff.mp (of_decide_eq_true hlast))

/-- A directory as a prefix ends with a slash, its own or one more. -/
theorem exists_asPrefix (t : Text) :
    ∃ q, asPrefix t = q ++ [slash] ∧ (t = q ++ [slash] ∨ t = q) := by
  by_cases h : EndsInSlash t
  · obtain ⟨q, hq⟩ := h
    exact ⟨q, by rw [asPrefix_of_endsInSlash ⟨q, hq⟩, hq], .inl hq⟩
  · exact ⟨t, asPrefix_of_not_endsInSlash h, .inr rfl⟩

theorem below_iff (h : backslash ∉ p) :
    Below d p b ↔ isAbsolute d ∧
      (∃ separators : Text, (∀ c ∈ separators, c = slash) ∧
        p = asPrefix (fold d) ++ (separators ++ b)) ∧ b ≠ [] ∧ b.head? ≠ some slash := by
  have hd : spelledFor d d = fold d := by
    unfold spelledFor
    split_ifs with hback
    · rfl
    · exact (fold_eq_self (by simpa using hback)).symm
  have hp : spelledFor d p = p := by
    unfold spelledFor
    split_ifs
    · exact fold_eq_self h
    · rfl
  constructor
  · rintro ⟨habsolute, hsplit, hne, hhead⟩
    rw [hd, hp] at hsplit
    exact ⟨habsolute, hsplit, hne, hhead⟩
  · rintro ⟨habsolute, hsplit, hne, hhead⟩
    refine ⟨habsolute, ?_, hne, hhead⟩
    rw [hd, hp]
    exact hsplit

theorem isRoot_of_append {start rest : Text} (h : IsRoot (start ++ rest)) : IsRoot start := by
  match start with
  | [] => exact .inl rfl
  | [c] =>
    obtain rfl := h.eq_slash c (by simp)
    exact .inr (.inl rfl)
  | [c, c'] =>
    obtain rfl := h.eq_slash c (by simp)
    obtain rfl := h.eq_slash c' (by simp)
    exact .inr (.inr rfl)
  | _ :: _ :: _ :: _ => rcases h with h | h | h <;> simp at h

theorem canonical_isRoot {start : Text} (h : IsRoot start) : canonical start = start := by
  rcases h with rfl | rfl | rfl <;> decide

/-- A directory that is a root as a prefix is that root. -/
theorem asPrefix_of_isRoot {t : Text} (hne : t ≠ []) (h : IsRoot (asPrefix t)) : asPrefix t = t := by
  refine asPrefix_of_endsInSlash (by_contra fun hend => hend (endsInSlash_of_slashes hne ?_))
  rw [asPrefix_of_not_endsInSlash hend] at h
  exact fun c hc => h.eq_slash c (List.mem_append_left _ hc)

/-- The last of the slashes behind a directory is its own, or one behind another slash. -/
theorem exists_front {q separators : Text} (h : ∀ c ∈ separators, c = slash) :
    ∃ front, q ++ [slash] ++ separators = front ++ [slash] ∧ (front = q ∨ EndsInSlash front) := by
  by_cases hne : separators = []
  · exact ⟨q, by rw [hne, List.append_nil], .inl rfl⟩
  · obtain ⟨s, rfl⟩ := endsInSlash_of_slashes hne h
    have hs : ∀ c ∈ slash :: s, c = slash :=
      List.forall_mem_cons.mpr ⟨rfl, fun c hc => h c (List.mem_append_left _ hc)⟩
    obtain ⟨r, hr⟩ := endsInSlash_of_slashes (List.cons_ne_nil slash s) hs
    exact ⟨q ++ slash :: s, by simp, .inr ⟨q ++ r, by rw [hr, List.append_assoc]⟩⟩

/-- What stands below a directory stands behind a slash: the directory's own, or one behind another. -/
theorem Below.behind_slash (hback : backslash ∉ p) (h : Below d p b) :
    ∃ q front, asPrefix (fold d) = q ++ [slash] ∧ (fold d = q ++ [slash] ∨ fold d = q) ∧
      q ++ [slash] <+: front ++ [slash] ∧ (front = q ∨ EndsInSlash front) ∧
      p = front ++ slash :: b := by
  obtain ⟨-, ⟨separators, hseparators, hsplit⟩, -⟩ := (below_iff hback).mp h
  obtain ⟨q, hleading, hq⟩ := exists_asPrefix (fold d)
  obtain ⟨front, hfront, hlast⟩ := exists_front (q := q) hseparators
  refine ⟨q, front, hleading, hq, ⟨separators, hfront⟩, hlast, ?_⟩
  rw [hsplit, hleading, ← List.append_assoc, hfront, List.append_assoc]
  rfl

/-- In a canonical path a directory with something below it is a root, or ends where two components part. -/
theorem Below.cut (hp : canonical p = p) (h : Below d p b) :
    (IsRoot (fold d) ∧ ∃ start parts, fold d <+: start ∧ Spelled start parts p ∧ p = start ++ b) ∨
      (asPrefix (fold d) = canonical d ++ [slash] ∧ ¬IsRoot (canonical d) ∧
        p = canonical d ++ slash :: b) := by
  have hback : backslash ∉ p := hp ▸ backslash_not_mem_canonical p
  obtain ⟨habsolute, -, -, hhead⟩ := (below_iff hback).mp h
  obtain ⟨q, front, hleading, hq, hfront, hlast, hcut⟩ := h.behind_slash hback
  obtain ⟨start, parts, hspelled⟩ := spelled_of_slash hp (by simp [hcut])
  rcases hspelled.cut hcut hhead with ⟨hstart, hbelow⟩ | ⟨u, hu, rfl, rfl⟩
  · -- The slash ends the root, so the directory is a root.
    rw [hstart] at hfront
    have hroot : IsRoot (asPrefix (fold d)) := by
      obtain ⟨separators, rfl⟩ := hfront
      rw [hleading]
      exact isRoot_of_append hspelled.root
    have hd : fold d ≠ [] := fun hnil => ne_nil_of_isAbsolute habsolute (List.map_eq_nil_iff.mp hnil)
    have hfold : asPrefix (fold d) = fold d := asPrefix_of_isRoot hd hroot
    rw [← hleading, hfold] at hfront
    rw [hfold] at hroot
    refine .inl ⟨hroot, start, parts, hfront, hspelled, ?_⟩
    rw [hbelow, ← hspelled.eq]
  · -- The slash parts two components, so it is the directory's own, and no other stands in front of it.
    obtain ⟨hself, hroot, hend⟩ := hspelled.front hu
    obtain rfl := hlast.resolve_right hend
    have hcanonical : canonical d = start ++ u := by
      rw [← canonical_fold d]
      rcases hq with hq | hq
      · rw [hq, canonical_concat_slash (exists_of_not_isRoot (hself.symm ▸ hroot)), hself]
      · rw [hq, hself]
    rw [hcanonical]
    exact .inr ⟨hleading, hroot, hcut⟩

/-- A canonical path that ends with a slash is a root. -/
theorem isRoot_of_endsInSlash (hp : canonical p = p) (h : EndsInSlash p) : IsRoot p := by
  obtain ⟨front, hfront⟩ := h
  obtain ⟨start, parts, hspelled⟩ := spelled_of_slash hp (by simp [hfront])
  rcases hspelled.cut hfront (by simp) with ⟨hstart, -⟩ | ⟨u, -, -, hparts⟩
  · rw [hfront, hstart]
    exact hspelled.root
  · -- Behind the slash there would be an empty component.
    have hempty : [] ∈ parts := by simp [hparts, Text.split]
    exact absurd rfl (hspelled.resolved.ne_nil [] hempty)

/-! ## What a directory takes away -/

/-- An absolute directory in its canonical spelling, backslashes and one separator at its end apart. -/
def TakesAway (directory : Text) : Prop :=
  isAbsolute directory ∧
    (fold directory = canonical directory ∨ fold directory = canonical directory ++ [slash])

/-- A directory that takes away from canonical paths just what its canonical spelling does. -/
def Plain (directory : Text) : Prop := TakesAway directory ↔ isAbsolute (canonical directory)

instance (d : Text) : Decidable (TakesAway d) := inferInstanceAs (Decidable (_ ∧ _))

instance (d : Text) : Decidable (Plain d) := inferInstanceAs (Decidable (_ ↔ _))

theorem takesAway_canonical (d : Text) : TakesAway (canonical d) ↔ isAbsolute (canonical d) := by
  unfold TakesAway
  rw [fold_canonical, canonical_canonical]
  exact and_iff_left (.inl rfl)

theorem TakesAway.asPrefix_eq (h : TakesAway d) : asPrefix (fold d) = asPrefix (canonical d) := by
  rcases h.2 with hself | hslash
  · rw [hself]
  · have hend : ¬EndsInSlash (canonical d) := by
      intro hend
      -- With one slash more a root is not the same root.
      have hsame := canonical_fold d
      rcases isRoot_of_endsInSlash (canonical_canonical d) hend with hroot | hroot | hroot <;>
        rw [hslash, hroot] at hsame <;>
        exact absurd hsame (by decide)
    rw [hslash, asPrefix_of_endsInSlash ⟨_, rfl⟩, asPrefix_of_not_endsInSlash hend]

/-- A directory with something below it in a canonical path takes it away. -/
theorem takesAway_of_below (hp : canonical p = p) (h : Below d p b) : TakesAway d := by
  refine ⟨h.absolute, ?_⟩
  rcases h.cut hp with ⟨hroot, -⟩ | ⟨hleading, -⟩
  · rw [← canonical_fold d, canonical_isRoot hroot]
    exact .inl rfl
  · obtain ⟨q, hq, hfold⟩ := exists_asPrefix (fold d)
    obtain rfl : q = canonical d := List.append_cancel_right (hq.symm.trans hleading)
    exact hfold.symm

/-- Of canonical paths nothing else is taken away. -/
theorem strip_of_not_takesAway (hp : canonical p = p) (h : ¬TakesAway d) : strip p d = p :=
  strip_eq_self fun ⟨_, hb⟩ => h (takesAway_of_below hp hb)

theorem Below.of_takesAway {d' : Text} (hp : canonical p = p) (h : Below d p b) (hd' : TakesAway d')
    (hcanonical : canonical d' = canonical d) : Below d' p b := by
  have hback : backslash ∉ p := hp ▸ backslash_not_mem_canonical p
  obtain ⟨-, hsplit, hbelow⟩ := (below_iff hback).mp h
  refine (below_iff hback).mpr ⟨hd'.1, ?_, hbelow⟩
  rwa [hd'.asPrefix_eq, hcanonical, ← (takesAway_of_below hp h).asPrefix_eq]

/-- A plain directory strips canonical paths as its canonical spelling does. -/
theorem strip_canonical_directory (h : Plain d) (hp : canonical p = p) :
    strip p (canonical d) = strip p d := by
  unfold Plain at h
  rw [← takesAway_canonical] at h
  have hcanonical := canonical_canonical d
  by_cases hd : TakesAway d
  · rcases strip_cases p d with ⟨b, hb, hstrip⟩ | hself
    · rw [hstrip, strip_eq_of_below (hb.of_takesAway hp (h.mp hd) hcanonical)]
    · rw [hself]
      refine strip_eq_self fun ⟨b, hb⟩ => ?_
      have hb' := hb.of_takesAway hp hd hcanonical.symm
      exact absurd (congrArg List.length (hself.symm.trans (strip_eq_of_below hb')))
        (Nat.ne_of_gt hb'.length_lt)
  · rw [strip_of_not_takesAway hp hd, strip_of_not_takesAway hp (mt h.mpr hd)]

theorem TakesAway.canonical_ne (h : TakesAway d) :
    canonical d ≠ [] ∧ canonical d ≠ Text.ofString "." := by
  refine ⟨canonical_ne_nil (ne_nil_of_isAbsolute h.1), fun hdot => ?_⟩
  -- A dot, with a slash behind it or not, is not absolute.
  have habsolute := isAbsolute_fold h.1
  rcases h.2 with hself | hslash
  · rw [hself, hdot] at habsolute
    exact absurd habsolute (by decide)
  · rw [hslash, hdot] at habsolute
    exact absurd habsolute (by decide)

/-- The name of a file. -/
def fileName : Text := "a.c"

/-- The canonical path of a file right below a directory. -/
def fileBelow (directory : Text) : Text := asPrefix (canonical directory) ++ fileName

theorem isName_fileName : IsName fileName := by unfold IsName; decide

theorem canonical_fileBelow (hne : canonical d ≠ []) (hdot : canonical d ≠ Text.ofString ".") :
    canonical (fileBelow d) = fileBelow d := by
  obtain ⟨start, parts, h⟩ := spelled_of_canonical hne hdot (canonical_canonical d)
  have hnames : IsResolved (start ≠ []) (parts ++ [fileName]) :=
    h.resolved.concat isName_fileName (by decide) (by decide)
  by_cases hparts : parts = []
  · subst hparts
    have hstart : canonical d = start := by rw [h.eq]; simp [Text.join]
    have hend : EndsInSlash start := endsInSlash_of_slashes (hstart ▸ hne) h.root.eq_slash
    have hspelled : Spelled start [fileName] (fileBelow d) :=
      ⟨h.root, hnames, by rw [fileBelow, hstart, asPrefix_of_endsInSlash hend]; rfl⟩
    exact hspelled.canonical_eq (by simp [fileBelow, fileName, Text.ofString])
  · have hsplit := Text.split_join hparts h.resolved.no_slash
    have hjoin := h.resolved.join_ne_nil hparts
    have heq := h.eq
    generalize Text.join [slash] parts = u at hsplit hjoin heq
    subst hsplit
    have hend : ¬EndsInSlash (canonical d) := by
      have hspelled : Spelled start (Text.split slash u ++ []) (canonical d) := by
        rwa [List.append_nil]
      rw [heq]
      exact (hspelled.front hjoin).2.2
    have hname : Text.split slash fileName = [fileName] := Text.split_of_not_mem (by decide)
    rw [← hname, ← Text.split_append] at hnames
    have hspelled : Spelled start (Text.split slash (u ++ slash :: fileName)) (fileBelow d) := by
      refine ⟨h.root, hnames, ?_⟩
      rw [fileBelow, asPrefix_of_not_endsInSlash hend, heq, Text.join_split]
      simp
    exact hspelled.canonical_eq (by simp [fileBelow, fileName, Text.ofString])

theorem strip_fileBelow (h : TakesAway d) : strip (fileBelow d) d = fileName := by
  obtain ⟨hne, hdot⟩ := h.canonical_ne
  have hback : backslash ∉ fileBelow d :=
    canonical_fileBelow hne hdot ▸ backslash_not_mem_canonical (fileBelow d)
  refine strip_eq_of_below ((below_iff hback).mpr ⟨h.1, ⟨[], by simp, ?_⟩, by decide, by decide⟩)
  rw [h.asPrefix_eq]
  rfl

/-- A directory that is not plain and its canonical spelling part on the file right below. -/
theorem strip_fileBelow_ne (h : ¬Plain d) :
    canonical (fileBelow d) = fileBelow d ∧
      strip (fileBelow d) (canonical d) ≠ strip (fileBelow d) d := by
  have hlength : fileName ≠ fileBelow d := by
    intro heq
    have hlength := congrArg List.length heq
    have hpos := List.length_pos_iff.mpr (asPrefix_ne_nil (canonical d))
    rw [fileBelow, List.length_append] at hlength
    omega
  have hsame : fileBelow (canonical d) = fileBelow d := by
    rw [fileBelow, canonical_canonical]
    rfl
  unfold Plain at h
  rw [← takesAway_canonical] at h
  by_cases hd : TakesAway d
  · have hd' : ¬TakesAway (canonical d) := fun hd' => h ⟨fun _ => hd', fun _ => hd⟩
    have hp := canonical_fileBelow hd.canonical_ne.1 hd.canonical_ne.2
    refine ⟨hp, ?_⟩
    rw [strip_fileBelow hd, strip_of_not_takesAway hp hd']
    exact hlength.symm
  · have hd' : TakesAway (canonical d) := by
      by_contra hd'
      exact h ⟨fun hd'' => absurd hd'' hd, fun hd'' => absurd hd'' hd'⟩
    have hne := hd'.canonical_ne
    rw [canonical_canonical] at hne
    have hp := canonical_fileBelow hne.1 hne.2
    refine ⟨hp, ?_⟩
    have hstrip := strip_fileBelow hd'
    rw [hsame] at hstrip
    rw [hstrip, strip_of_not_takesAway hp hd]
    exact hlength

/-! ## Paths seen from a directory -/

/-- Seen from a plain directory, a path is where it is from the canonical spelling of the directory. -/
theorem canonical_join_plain (h : Plain d) (hne : d ≠ []) (file : Text) :
    canonical (canonical d ++ slash :: file) = canonical (d ++ slash :: file) := by
  by_cases hroot : IsRoot (canonical d)
  · -- Behind a root a slash more would count, but a plain root is spelled with as many slashes.
    have hend : EndsInSlash (canonical d) :=
      endsInSlash_of_slashes (canonical_ne_nil hne) hroot.eq_slash
    have hhead : (canonical d).head? = some slash := by
      rcases hroot with hnil | hroot | hroot
      · exact absurd hnil (canonical_ne_nil hne)
      · rw [hroot]
        rfl
      · rw [hroot]
        rfl
    have habsolute : isAbsolute (canonical d) :=
      (isAbsolute_iff (backslash_not_mem_canonical d)).mpr (.inl hhead)
    have hleading := (h.mpr habsolute).asPrefix_eq
    rw [asPrefix_of_endsInSlash hend] at hleading
    have hfold : fold d ≠ [] := fun hnil => hne (List.map_eq_nil_iff.mp hnil)
    rw [asPrefix_of_isRoot hfold (hleading ▸ hroot)] at hleading
    rw [← canonical_fold (d ++ slash :: file), ← canonical_fold (canonical d ++ slash :: file),
      fold_append_slash, fold_append_slash, hleading, fold_canonical]
  · exact canonical_join hroot file

end Findings.Path
