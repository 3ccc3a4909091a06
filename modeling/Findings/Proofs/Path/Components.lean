import Findings.Proofs.Path.Directory
import Findings.Proofs.Path.Strip

/-!
# Components

`components p`: what stands between the slashes of a path, empty pieces left out. Slashes at an end and runs
of slashes do not count, so a directory that is compared as a prefix of characters is a prefix component by
component, and what stands below it are the components behind (`Below.components`). A canonical path is a root
and its components (`exists_spelled_components`), so below a directory with fewer of the same components the rest
is found, if both start with one slash (`OneSlash.below`). The two together say what stripping does
(`strip_componentwise`).
-/

namespace Findings.Path

variable {d p b : Text}

/-- What stands between the slashes, empty pieces left out. -/
def components (p : Text) : List Text := (Text.split slash p).filter (· ≠ [])

theorem components_append_slash (u v : Text) :
    components (u ++ slash :: v) = components u ++ components v := by
  rw [components, Text.split_append, List.filter_append, components, components]

theorem components_slash_cons (v : Text) : components (slash :: v) = components v :=
  components_append_slash [] v

/-- Slashes in front do not count. -/
theorem components_slashes {separators : Text} (h : ∀ c ∈ separators, c = slash) (v : Text) :
    components (separators ++ v) = components v := by
  induction separators with
  | nil => rfl
  | cons c separators ih =>
    rw [List.forall_mem_cons] at h
    rw [List.cons_append, h.1, components_slash_cons, ih h.2]

/-- A directory as a prefix has its components and those behind it. -/
theorem components_asPrefix_append (t v : Text) :
    components (asPrefix t ++ v) = components t ++ components v := by
  obtain ⟨q, hq, ht⟩ := exists_asPrefix t
  rw [hq, List.append_assoc, List.singleton_append, components_append_slash]
  rcases ht with rfl | rfl
  · rw [components_append_slash]
    exact congrArg (· ++ components v) (List.append_nil _).symm
  · rfl

theorem components_ne_nil (hne : b ≠ []) (hhead : b.head? ≠ some slash) : components b ≠ [] := by
  obtain ⟨c, r, rfl⟩ := List.exists_cons_of_ne_nil hne
  have hc : c ≠ slash := fun hc => hhead (congrArg some hc)
  obtain ⟨piece, pieces, hsplit⟩ :
      ∃ piece pieces, Text.split slash (c :: r) = (c :: piece) :: pieces := by
    rw [Text.split, if_neg hc]
    split
    · exact ⟨_, _, rfl⟩
    · exact ⟨_, _, rfl⟩
  rw [components, hsplit, List.filter_cons_of_pos (by simp)]
  exact List.cons_ne_nil _ _

theorem components_join {parts : List Text} (hslash : ∀ part ∈ parts, slash ∉ part)
    (hne : ∀ part ∈ parts, part ≠ []) : components (Text.join [slash] parts) = parts := by
  by_cases hparts : parts = []
  · subst hparts
    rfl
  · rw [components, Text.split_join hparts hslash, List.filter_eq_self]
    exact fun part hpart => decide_eq_true (hne part hpart)

theorem components_of_isResolved {rooted : Bool} {parts : List Text} (h : IsResolved rooted parts) :
    components (Text.join [slash] parts) = parts :=
  components_join h.no_slash h.ne_nil

/-- A canonical path is a root and its components, if it is neither empty nor a dot. -/
theorem exists_spelled_components (hp : canonical p = p) (hne : p ≠ []) (hdot : p ≠ Text.ofString ".") :
    ∃ start, Spelled start (components p) p := by
  obtain ⟨start, parts, h⟩ := spelled_of_canonical hne hdot hp
  have hcomponents : components p = parts := by
    rw [h.eq, components_slashes h.root.eq_slash, components_of_isResolved h.resolved]
  exact ⟨start, hcomponents ▸ h⟩

/-! ## Below a directory -/

/-- The components of a path are those of a directory and those of what stands below. -/
theorem Below.components (h : Below d p b) :
    components (spelledFor d p) = components (spelledFor d d) ++ components b := by
  obtain ⟨separators, hseparators, hsplit⟩ := h.split
  rw [hsplit, components_asPrefix_append, components_slashes hseparators]

/-- The path starts with a slash, and with one only. -/
def OneSlash (p : Text) : Prop := ∃ rest : Text, p = slash :: rest ∧ rest.head? ≠ some slash

theorem spelledFor_eq_self (hp : canonical p = p) (d : Text) : spelledFor d p = p := by
  have hback : backslash ∉ p := hp ▸ backslash_not_mem_canonical p
  unfold spelledFor
  split_ifs
  · exact fold_eq_self hback
  · rfl

namespace OneSlash

/-- A canonical path that starts with one slash is the slash and its components. -/
theorem eq_join (h : OneSlash p) (hp : canonical p = p) :
    p = slash :: Text.join [slash] (components p) ∧ IsResolved true (components p) := by
  obtain ⟨rest, hcut, hhead⟩ := h
  have hfirst : p.head? = some slash := congrArg List.head? hcut
  have hdot : p ≠ Text.ofString "." := by
    rintro rfl
    exact absurd hfirst (by decide)
  obtain ⟨start, hspelled⟩ := exists_spelled_components hp (by simp [hcut]) hdot
  obtain rfl : start = [slash] := by
    have heq := hspelled.eq
    rcases hspelled.root with rfl | rfl | rfl
    · exact absurd ((congrArg List.head? heq).symm.trans hfirst) (head_join hspelled.resolved)
    · rfl
    · rw [(List.cons.inj (hcut.symm.trans heq)).2] at hhead
      exact absurd rfl hhead
  exact ⟨hspelled.eq, hspelled.resolved⟩

theorem isAbsolute (h : OneSlash d) : isAbsolute d := by
  obtain ⟨rest, rfl, -⟩ := h
  rfl

/-- As a prefix, a canonical directory is a slash and its components, each with a slash behind it. -/
theorem asPrefix_append_join (h : OneSlash d) (hd : canonical d = d) {rest : List Text} (hrest : rest ≠ []) :
    asPrefix d ++ Text.join [slash] rest = slash :: Text.join [slash] (components d ++ rest) := by
  obtain ⟨heq, hresolved⟩ := h.eq_join hd
  generalize components d = parts at heq hresolved ⊢
  subst heq
  by_cases hroot : parts = []
  · subst hroot
    rfl
  · have hend : ¬EndsInSlash (slash :: Text.join [slash] parts) := by
      intro hend
      have hempty := (EndsInSlash.of_append (t := [slash]) hend (hresolved.join_ne_nil hroot)).nil_mem_split
      rw [Text.split_join hroot hresolved.no_slash] at hempty
      exact hresolved.ne_nil [] hempty rfl
    rw [asPrefix_of_not_endsInSlash hend, Text.join_append hroot hrest]
    simp

/-- With a directory's components in front, the rest of the components stands below the directory. -/
theorem below (h : OneSlash p) (h' : OneSlash d) (hp : canonical p = p) (hd : canonical d = d)
    {rest : List Text} (hrest : rest ≠ []) (hcomponents : components p = components d ++ rest) :
    Below d p (Text.join [slash] rest) := by
  obtain ⟨heq, hresolved⟩ := h.eq_join hp
  rw [hcomponents] at heq hresolved
  have hbehind := hresolved.of_append.2
  refine ⟨h'.isAbsolute, ⟨[], by simp, ?_⟩, hbehind.join_ne_nil hrest, head_join hbehind⟩
  rw [spelledFor_eq_self hp, spelledFor_eq_self hd, List.nil_append, h'.asPrefix_append_join hd hrest,
    ← heq]

end OneSlash

/-- What stripping takes away is an absolute directory that stands in front of the path component by
component; what it leaves is not empty, starts with no slash and has the components behind. Of canonical paths
that start with one slash, it takes away every such directory with fewer components than the path, and leaves the
other components joined by slashes. -/
theorem strip_componentwise (p d : Text) :
    (strip p d ≠ p →
      isAbsolute d ∧ strip p d ≠ [] ∧ (strip p d).head? ≠ some slash ∧
        components (spelledFor d p) = components (spelledFor d d) ++ components (strip p d)) ∧
    (canonical p = p → canonical d = d → OneSlash p → OneSlash d →
      (∀ rest, rest ≠ [] → components p = components d ++ rest →
        strip p d = Text.join [slash] rest) ∧
      ((¬∃ rest, rest ≠ [] ∧ components p = components d ++ rest) → strip p d = p)) := by
  constructor
  · intro hne
    rcases strip_cases p d with ⟨b, hb, hstrip⟩ | hself
    · rw [hstrip]
      exact ⟨hb.absolute, hb.ne_nil, hb.relative, hb.components⟩
    · exact absurd hself hne
  · intro hp hd hpslash hdslash
    constructor
    · intro rest hrest hcomponents
      exact strip_eq_of_below (hpslash.below hdslash hp hd hrest hcomponents)
    · intro hnone
      refine strip_eq_self fun ⟨b, hb⟩ => hnone ⟨components b, ?_, ?_⟩
      · exact components_ne_nil hb.ne_nil hb.relative
      · have hsplit := hb.components
        rwa [spelledFor_eq_self hp, spelledFor_eq_self hd] at hsplit

/-- A directory two components deep is taken away; one whose last component only begins like one of the path
is not. -/
theorem deep_componentwise :
    strip "\\\\host\\share\\lib/a.c" "\\\\host/share\\" = "lib/a.c" ∧
      components (spelledFor "\\\\host/share\\" "\\\\host\\share\\lib/a.c") =
        components (spelledFor "\\\\host/share\\" "\\\\host/share\\") ++ components "lib/a.c" ∧
      strip "/src/lib/x/a.c" "/src/lib" = Text.join [slash] ["x", "a.c"] ∧
      strip "/src/library/a.c" "/src/lib" = "/src/library/a.c" := by
  have hfolded : strip "\\\\host\\share\\lib/a.c" "\\\\host/share\\" = "lib/a.c" := by decide
  obtain ⟨-, -, -, hcomponents⟩ :=
    (strip_componentwise "\\\\host\\share\\lib/a.c" "\\\\host/share\\").1 (by decide)
  rw [hfolded] at hcomponents
  have hdeep := (strip_componentwise "/src/lib/x/a.c" "/src/lib").2 (by decide) (by decide)
    ⟨_, rfl, by decide⟩ ⟨_, rfl, by decide⟩
  have hpartial := (strip_componentwise "/src/library/a.c" "/src/lib").2 (by decide) (by decide)
    ⟨_, rfl, by decide⟩ ⟨_, rfl, by decide⟩
  refine ⟨hfolded, hcomponents, hdeep.1 ["x", "a.c"] (by decide) (by decide), hpartial.2 ?_⟩
  rintro ⟨rest, -, hrest⟩
  have hfront : components "/src/lib" <+: components "/src/library/a.c" := ⟨rest, hrest.symm⟩
  exact absurd hfront (by decide)

end Findings.Path
