import Findings.Text.Blank

/-!
# Splitting what was joined

Pieces without the separator come back from their joined form (`split_join`), and so do lines that each
end with the separator (`split_lines`). Joining the pieces of a text gives the text (`join_split`). A piece
after the last separator is found by `splitLast`, whatever is in front of it. A run of characters of one kind
is cut off where another kind starts (`takeWhile_append_stop`, `dropWhile_append_stop`), and what is left between
two of them is a word just if it stood there (`trimBy_eq_iff`).
-/

namespace Findings.Text

variable {sep : CodePoint}

theorem split_of_not_mem {t : Text} (h : sep ∉ t) : split sep t = [t] := by
  induction t with
  | nil => rfl
  | cons c t ih =>
    simp only [List.mem_cons, not_or] at h
    rw [split, if_neg (Ne.symm h.1), ih h.2]

theorem split_append_sep {piece : Text} (rest : Text) (h : sep ∉ piece) :
    split sep (piece ++ sep :: rest) = piece :: split sep rest := by
  induction piece with
  | nil => simp [split]
  | cons c piece ih =>
    simp only [List.mem_cons, not_or] at h
    rw [List.cons_append, split, if_neg (Ne.symm h.1), ih h.2]

theorem split_join {pieces : List Text} (hne : pieces ≠ []) (h : ∀ t ∈ pieces, sep ∉ t) :
    split sep (join [sep] pieces) = pieces := by
  induction pieces with
  | nil => exact absurd rfl hne
  | cons t ts ih =>
    cases ts with
    | nil => exact split_of_not_mem (h t (by simp))
    | cons u us =>
      have hrest : split sep (join [sep] (u :: us)) = u :: us :=
        ih (by simp) fun x hx => h x (List.mem_cons_of_mem t hx)
      rw [join, List.append_assoc, List.singleton_append, split_append_sep _ (h t (by simp)), hrest]
      simp

theorem split_ne_nil (t : Text) : split sep t ≠ [] := by
  cases t with
  | nil => simp [split]
  | cons c r =>
    rw [split]
    split
    · simp
    · split <;> simp

/-- Splitting at one separator first makes no difference. -/
theorem split_append (t rest : Text) : split sep (t ++ sep :: rest) = split sep t ++ split sep rest := by
  induction t with
  | nil => simp [split]
  | cons c t ih =>
    rw [List.cons_append, split, split, ih]
    split
    · rfl
    · cases ht : split sep t with
      | nil => exact absurd ht (split_ne_nil t)
      | cons piece pieces => rfl

theorem join_cons (sep t : Text) {ts : List Text} (h : ts ≠ []) :
    join sep (t :: ts) = t ++ (sep ++ join sep ts) := by
  cases ts with
  | nil => exact absurd rfl h
  | cons u us => rw [join, List.append_assoc]; exact List.cons_ne_nil u us

theorem join_append {ts us : List Text} (hts : ts ≠ []) (hus : us ≠ []) :
    join [sep] (ts ++ us) = join [sep] ts ++ sep :: join [sep] us := by
  induction ts with
  | nil => exact absurd rfl hts
  | cons t ts ih =>
    by_cases hnil : ts = []
    · subst hnil
      exact join_cons [sep] t hus
    · rw [List.cons_append, join_cons [sep] t (List.append_ne_nil_of_left_ne_nil hnil us), ih hnil,
        join_cons [sep] t hnil]
      simp

theorem prefix_join (sep t : Text) (ts : List Text) : t <+: join sep (t :: ts) := by
  cases ts with
  | nil => exact List.prefix_refl t
  | cons u us => rw [join_cons sep t (List.cons_ne_nil u us)]; exact List.prefix_append _ _

theorem join_eq_flatMap (t : Text) (ts : List Text) :
    join [sep] (t :: ts) = t ++ ts.flatMap (sep :: ·) := by
  induction ts generalizing t with
  | nil => exact (List.append_nil t).symm
  | cons u us ih => rw [join_cons _ t (List.cons_ne_nil u us), ih, List.flatMap_cons]; rfl

theorem join_split (t : Text) : join [sep] (split sep t) = t := by
  induction t with
  | nil => rfl
  | cons c r ih =>
    rw [split]
    split
    · next h => rw [join_cons _ [] (split_ne_nil r), ih, h]; rfl
    · match hr : split sep r with
      | [] => exact absurd hr (split_ne_nil r)
      | [piece] =>
        rw [hr] at ih
        exact congrArg (c :: ·) ih
      | piece :: next :: pieces =>
        rw [hr, join_cons _ _ (List.cons_ne_nil next pieces)] at ih
        rw [join_cons _ _ (List.cons_ne_nil next pieces), List.cons_append, ih]

theorem not_mem_of_mem_split {t piece : Text} (h : piece ∈ split sep t) : sep ∉ piece := by
  induction t generalizing piece with
  | nil => simp_all [split]
  | cons c r ih =>
    rw [split] at h
    split at h
    · rcases List.mem_cons.mp h with rfl | h
      · exact List.not_mem_nil
      · exact ih h
    · next hc =>
      match hr : split sep r with
      | [] => exact absurd hr (split_ne_nil r)
      | first :: pieces =>
        rw [hr] at h ih
        rcases List.mem_cons.mp h with rfl | h
        · exact List.not_mem_cons_of_ne_of_not_mem (Ne.symm hc) (ih List.mem_cons_self)
        · exact ih (List.mem_cons_of_mem _ h)

theorem mem_join {sep : Text} {pieces : List Text} {c : CodePoint} (h : c ∈ join sep pieces) :
    c ∈ sep ∨ ∃ piece ∈ pieces, c ∈ piece := by
  induction pieces with
  | nil => exact absurd h List.not_mem_nil
  | cons t ts ih =>
    by_cases hts : ts = []
    · subst hts
      exact .inr ⟨t, List.mem_singleton.mpr rfl, h⟩
    · rw [join_cons sep t hts, List.mem_append, List.mem_append] at h
      rcases h with h | h | h
      · exact .inr ⟨t, List.mem_cons_self, h⟩
      · exact .inl h
      · exact (ih h).imp_right fun ⟨u, hu, hc⟩ => ⟨u, List.mem_cons_of_mem t hu, hc⟩

theorem infix_join {pieces : List Text} {piece : Text} (h : piece ∈ pieces) :
    piece <:+: join [sep] pieces := by
  induction pieces with
  | nil => exact absurd h List.not_mem_nil
  | cons t ts ih =>
    by_cases hts : ts = []
    · subst hts
      rw [List.mem_singleton.mp h]
      exact List.infix_refl t
    · rw [join_cons _ t hts]
      rcases List.mem_cons.mp h with rfl | h
      · exact (List.prefix_append piece _).isInfix
      · exact ((ih h).trans (List.suffix_cons sep _).isInfix).trans
          (List.suffix_append t _).isInfix

theorem infix_of_mem_split {t piece : Text} (h : piece ∈ split sep t) : piece <:+: t := by
  have hjoin : piece <:+: join [sep] (split sep t) := infix_join h
  rwa [join_split] at hjoin

theorem split_lines {lines : List Text} (h : ∀ l ∈ lines, sep ∉ l) :
    split sep (lines.flatMap (· ++ [sep])) = lines ++ [[]] := by
  induction lines with
  | nil => rfl
  | cons l ls ih =>
    rw [List.flatMap_cons, List.append_assoc, List.singleton_append,
      split_append_sep _ (h l (by simp)), ih fun x hx => h x (List.mem_cons_of_mem l hx)]
    rfl

/-- What stands in front of the last separator, and what stands after it. -/
def splitLast (sep : CodePoint) : Text → Option (Text × Text)
  | [] => none
  | c :: r =>
    match splitLast sep r with
    | some (front, rest) => some (c :: front, rest)
    | none => if c = sep then some ([], r) else none

theorem splitLast_of_not_mem {t : Text} (h : sep ∉ t) : splitLast sep t = none := by
  induction t with
  | nil => rfl
  | cons c t ih =>
    simp only [List.mem_cons, not_or] at h
    rw [splitLast, ih h.2]
    exact if_neg (Ne.symm h.1)

theorem splitLast_append_sep (front : Text) {rest : Text} (h : sep ∉ rest) :
    splitLast sep (front ++ sep :: rest) = some (front, rest) := by
  induction front with
  | nil => simp [splitLast, splitLast_of_not_mem h]
  | cons c front ih => rw [List.cons_append, splitLast, ih]

/-! ## Runs of one kind -/

variable {p : CodePoint → Bool} {front rest : Text}

theorem takeWhile_append_stop (h : ∀ c ∈ front, p c) (hrest : ∀ c ∈ rest.head?, ¬p c) :
    (front ++ rest).takeWhile p = front := by
  rw [List.takeWhile_append_of_pos h]
  cases rest with
  | nil => simp
  | cons c r => rw [List.takeWhile_cons_of_neg (hrest c rfl), List.append_nil]

theorem dropWhile_append_stop (h : ∀ c ∈ front, p c) (hrest : ∀ c ∈ rest.head?, ¬p c) :
    (front ++ rest).dropWhile p = rest := by
  rw [List.dropWhile_append_of_pos h]
  cases rest with
  | nil => rfl
  | cons c r => rw [List.dropWhile_cons_of_neg (hrest c rfl)]

/-- A text is what its trimming leaves between what it takes away. -/
theorem exists_trimBy (p : CodePoint → Bool) (t : Text) :
    ∃ before after : Text, before.all p ∧ after.all p ∧ t = before ++ t.trimBy p ++ after := by
  have hback := List.takeWhile_append_dropWhile (p := p) (l := (t.dropWhile p).reverse)
  have hrest : t.dropWhile p = t.trimBy p ++ ((t.dropWhile p).reverse.takeWhile p).reverse := by
    rw [trimBy, ← List.reverse_append, hback, List.reverse_reverse]
  refine ⟨t.takeWhile p, ((t.dropWhile p).reverse.takeWhile p).reverse, List.all_takeWhile, ?_, ?_⟩
  · rw [List.all_reverse]
    exact List.all_takeWhile
  · rw [List.append_assoc, ← hrest, List.takeWhile_append_dropWhile]

theorem trimBy_eq_iff {t word : Text} (hne : word ≠ []) (hword : ∀ c ∈ word, ¬p c) :
    t.trimBy p = word ↔
      ∃ before after : Text, before.all p ∧ after.all p ∧ t = before ++ word ++ after := by
  constructor
  · rintro rfl
    exact exists_trimBy p t
  · rintro ⟨before, after, hbefore, hafter, rfl⟩
    have hfirst : ∀ c ∈ (word ++ after).head?, ¬p c := by
      obtain ⟨first, rest, rfl⟩ := List.exists_cons_of_ne_nil hne
      intro c hc
      obtain rfl : first = c := Option.some.inj hc
      exact hword first List.mem_cons_self
    have hlast : ∀ c ∈ word.reverse.head?, ¬p c := fun c hc =>
      hword c (List.mem_reverse.mp (List.mem_of_head? hc))
    have hback : ∀ c ∈ after.reverse, p c := fun c hc =>
      List.all_eq_true.mp hafter c (List.mem_reverse.mp hc)
    rw [trimBy, List.append_assoc, dropWhile_append_stop (List.all_eq_true.mp hbefore) hfirst,
      List.reverse_append, dropWhile_append_stop hback hlast, List.reverse_reverse]

end Findings.Text
