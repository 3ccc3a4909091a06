import Findings.Proofs.Text.Characters
import Findings.Proofs.Text.Split
import Mathlib.Data.List.Chain
import Mathlib.Tactic.SplitIfs

/-!
# Pairs of surrogates

Two surrogates side by side, a high one and a low one behind it, stay two code points in a text, but some
readers take them for the one character they stand for. A text without such a pair is `Unpaired`. Its parts
have none either (`unpaired_of_isInfix`), and none arises where other characters stand in between
(`unpaired_join`).
-/

namespace Findings

namespace CodePoint

theorem isSurrogate_of_isHighSurrogate {c : CodePoint} (h : c.isHighSurrogate) : c.isSurrogate := by
  simp only [isHighSurrogate, isSurrogate, Bool.and_eq_true, decide_eq_true_eq] at h ⊢
  omega

theorem isSurrogate_of_isLowSurrogate {c : CodePoint} (h : c.isLowSurrogate) : c.isSurrogate := by
  simp only [isLowSurrogate, isSurrogate, Bool.and_eq_true, decide_eq_true_eq] at h ⊢
  omega

theorem not_isLowSurrogate_of_isHighSurrogate {c : CodePoint} (h : c.isHighSurrogate) :
    c.isLowSurrogate = false := by
  rw [← Bool.not_eq_true]
  simp only [isHighSurrogate, isLowSurrogate, Bool.and_eq_true, decide_eq_true_eq] at h ⊢
  omega

variable {c : CodePoint}

theorem highHalf_val (h : 0x10000 ≤ c.val) :
    c.highHalf.val = 0xD800 + (c.val - 0x10000) / 0x400 := by
  have := c.isLt
  exact ofNat_val (by omega)

theorem lowHalf_val (c : CodePoint) : c.lowHalf.val = 0xDC00 + (c.val - 0x10000) % 0x400 :=
  ofNat_val (by omega)

theorem isHighSurrogate_highHalf (h : 0x10000 ≤ c.val) : c.highHalf.isHighSurrogate := by
  have := c.isLt
  simp only [isHighSurrogate, highHalf_val h, Bool.and_eq_true, decide_eq_true_eq]
  omega

theorem isLowSurrogate_lowHalf (c : CodePoint) : c.lowHalf.isLowSurrogate := by
  simp only [isLowSurrogate, lowHalf_val c, Bool.and_eq_true, decide_eq_true_eq]
  omega

/-- A character outside the basic plane is what its two halves stand for. -/
theorem join_halves (h : 0x10000 ≤ c.val) : join c.highHalf c.lowHalf = c := by
  have hval : 0x10000 + (c.highHalf.val - 0xD800) * 0x400 + (c.lowHalf.val - 0xDC00) = c.val := by
    rw [highHalf_val h, lowHalf_val c]
    omega
  rw [join, hval, ofNat_self]

/-- What two surrogates stand for is outside the basic plane. -/
theorem le_join {high low : CodePoint} (hhigh : high.isHighSurrogate) (hlow : low.isLowSurrogate) :
    0x10000 ≤ (join high low).val := by
  simp only [isHighSurrogate, isLowSurrogate, Bool.and_eq_true, decide_eq_true_eq] at hhigh hlow
  rw [join, ofNat_val (by omega)]
  omega

end CodePoint

namespace Text

/-- No high surrogate stands directly in front of a low one. -/
def Unpaired (t : Text) : Prop :=
  t.IsChain fun c d => ¬(c.isHighSurrogate ∧ d.isLowSurrogate)

instance (t : Text) : Decidable (Unpaired t) := inferInstanceAs (Decidable (List.IsChain _ _))

theorem unpaired_nil : Unpaired [] := .nil

theorem unpaired_cons {c : CodePoint} {t : Text} :
    Unpaired (c :: t) ↔ (∀ d ∈ t.head?, ¬(c.isHighSurrogate ∧ d.isLowSurrogate)) ∧ Unpaired t :=
  List.isChain_cons

theorem unpaired_of_isInfix {t u : Text} (hu : u <:+: t) (h : Unpaired t) : Unpaired u := by
  obtain ⟨front, rest, rfl⟩ := hu
  exact (List.IsChain.left_of_append h).right_of_append

/-- A character that is no surrogate parts two texts. -/
theorem unpaired_append_cons {t u : Text} {c : CodePoint} (hc : c.isSurrogate = false)
    (ht : Unpaired t) (hu : Unpaired u) : Unpaired (t ++ c :: u) := by
  have hhigh : ¬c.isHighSurrogate := fun h => by
    simp [CodePoint.isSurrogate_of_isHighSurrogate h] at hc
  have hlow : ¬c.isLowSurrogate := fun h => by
    simp [CodePoint.isSurrogate_of_isLowSurrogate h] at hc
  refine List.IsChain.append ht (unpaired_cons.mpr ⟨fun d _ h => hhigh h.1, hu⟩) ?_
  rintro d - e he ⟨-, h⟩
  obtain rfl := Option.some.inj he
  exact hlow h

theorem isEncodable_cons {c : CodePoint} {t : Text} :
    isEncodable (c :: t) ↔ c.isSurrogate = false ∧ t.isEncodable := by
  simp [isEncodable]

theorem isEncodable_append {t u : Text} :
    (t ++ u).isEncodable ↔ t.isEncodable ∧ u.isEncodable := by
  simp [isEncodable, List.all_append]

theorem isEncodable_flatMap {α : Type} {xs : List α} {f : α → Text}
    (h : ∀ x ∈ xs, (f x).isEncodable) : isEncodable (xs.flatMap f) := by
  induction xs with
  | nil => rfl
  | cons x xs ih =>
    rw [List.forall_mem_cons] at h
    rw [List.flatMap_cons, isEncodable_append]
    exact ⟨h.1, ih h.2⟩

theorem all_of_subset {p : CodePoint → Bool} {t u : Text} (h : u ⊆ t) (ht : t.all p) : u.all p :=
  List.all_eq_true.mpr fun c hc => List.all_eq_true.mp ht c (h hc)

/-- What holds of the characters of the separator and of the pieces holds of all characters. -/
theorem all_join {p : CodePoint → Bool} {sep : Text} (hsep : sep.all p) {pieces : List Text}
    (h : ∀ t ∈ pieces, t.all p) : (join sep pieces).all p := by
  induction pieces with
  | nil => rfl
  | cons t ts ih =>
    rw [List.forall_mem_cons] at h
    by_cases hts : ts = []
    · rw [hts]
      exact h.1
    · rw [join_cons sep t hts, List.all_append, List.all_append, h.1, hsep, ih h.2]
      rfl

theorem isEncodable_join {sep : Text} (hsep : sep.isEncodable) {pieces : List Text}
    (h : ∀ t ∈ pieces, t.isEncodable) : (join sep pieces).isEncodable :=
  all_join hsep h

theorem unpaired_of_isEncodable {t : Text} (h : t.isEncodable) : Unpaired t := by
  induction t with
  | nil => exact unpaired_nil
  | cons c t ih =>
    rw [isEncodable_cons] at h
    exact unpaired_append_cons h.1 unpaired_nil (ih h.2)

theorem unpaired_join {sep : CodePoint} (hsep : sep.isSurrogate = false) {pieces : List Text}
    (h : ∀ t ∈ pieces, Unpaired t) : Unpaired (join [sep] pieces) := by
  induction pieces with
  | nil => exact unpaired_nil
  | cons t ts ih =>
    have ht := h t (by simp)
    cases ts with
    | nil => exact ht
    | cons u us =>
      have hrest := ih fun t' ht' => h t' (List.mem_cons_of_mem t ht')
      rw [join_cons _ t (List.cons_ne_nil u us)]
      exact unpaired_append_cons hsep ht hrest

end Text
end Findings
