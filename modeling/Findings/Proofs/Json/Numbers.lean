import Findings.Proofs.Json.RoundTrip
import Mathlib.Data.List.DropRight

/-!
# Written numbers are read

However a binary64 number is written, with a point in it or with a power of ten, it is a number of JSON:
`exists_spells_writeFloat`. In front of the point stand the digits of a whole number, because the shortest
decimal of a number other than zero does not start with one (`coefficient_shortest`).
-/

namespace Findings

theorem Ratio.num_scale_pos {r : Ratio} (h : 0 < r.num) {b : Nat} (hb : 0 < b) (k : Int) :
    0 < (r.scale b k).num := by
  cases k with
  | ofNat k => exact Nat.mul_pos h (Nat.pow_pos hb)
  | negSucc k => exact h

namespace Binary64

/-- Zero reads back as no other number. -/
theorem readsBack_zero {m : Nat} (hm : m ≠ 0) (e p : Int) : readsBack m e p 0 = false := by
  have hlow : 0 < (bounds m e).1 := by
    simp only [bounds]
    split_ifs <;> omega
  have hnum : 0 < ((Ratio.scale ⟨(bounds m e).1, 1⟩ 2 (e - 2)).scale 10 (-p)).num :=
    Ratio.num_scale_pos (Ratio.num_scale_pos hlow (by decide) _) (by decide) _
  simp only [readsBack, Nat.zero_mul, Nat.le_zero, Nat.not_lt_zero, Nat.pos_iff_ne_zero.mp hnum, decide_false,
    Bool.false_and, ite_self]

theorem coefficient_shortest {m : Nat} (hm : m ≠ 0) (e : Int) :
    shortest m e = ⟨0, 0⟩ ∨ (shortest m e).coefficient ≠ 0 := by
  simp only [shortest]
  generalize (List.range 17).map _ = grids
  cases hfound : grids.findSome? fun p => (gridPoint? m e p).map (Decimal.mk · p) with
  | none => exact .inl rfl
  | some d =>
    obtain ⟨p, -, hp⟩ := List.exists_of_findSome?_eq_some hfound
    obtain ⟨c, hc, rfl⟩ := Option.map_eq_some_iff.mp hp
    refine .inr ?_
    rintro rfl
    have hback := List.find?_some hc
    rw [readsBack_zero hm] at hback
    cases hback

end Binary64

namespace Json

/-! ## Digits -/

theorem AreDigits.append {ds ds' : Text} (h : AreDigits ds) (h' : AreDigits ds') : AreDigits (ds ++ ds') :=
  fun c hc => (List.mem_append.mp hc).elim (h c) (h' c)

theorem AreDigits.of_subset {ds ds' : Text} (h : AreDigits ds) (hsub : ds' ⊆ ds) : AreDigits ds' :=
  fun c hc => h c (hsub hc)

theorem areDigits_zeros (n : Nat) : AreDigits (zeros n) := by
  intro c hc
  obtain rfl := List.eq_of_mem_replicate hc
  decide

theorem areDigits_padLeft (width n : Nat) : AreDigits ((Text.ofNat n).padLeft width '0') :=
  (areDigits_zeros _).append (areDigits_ofNat n)

/-- Digits of which the first is no zero. -/
structure IsLeading (ds : Text) : Prop where
  digits : AreDigits ds
  head : ∃ c r, ds = c :: r ∧ c ≠ .ofChar '0'

theorem eq_zero_of_digit {c : CodePoint} (hc : c.isAsciiDigit) (h : c.val - 0x30 = 0) : c = .ofChar '0' := by
  simp only [CodePoint.isAsciiDigit, Bool.and_eq_true, decide_eq_true_eq] at hc
  have hval : c.val = 0x30 := by omega
  rw [← c.ofNat_self, hval]
  rfl

/-- In front of a point they are those of a whole number, also with more digits behind them. -/
theorem IsLeading.isWhole {ds : Text} (h : IsLeading ds) : IsWhole ds := by
  obtain ⟨c, r, rfl, hc⟩ := h.head
  exact ⟨h.digits, _, _, rfl, fun hzero => absurd (eq_zero_of_digit (h.digits c List.mem_cons_self) hzero) hc⟩

theorem IsLeading.append {ds ds' : Text} (h : IsLeading ds) (h' : AreDigits ds') : IsLeading (ds ++ ds') := by
  obtain ⟨c, r, rfl, hc⟩ := h.head
  exact ⟨h.digits.append h', c, _, rfl, hc⟩

theorem IsLeading.take {ds : Text} (h : IsLeading ds) {n : Nat} (hn : 0 < n) : IsLeading (ds.take n) := by
  obtain ⟨c, r, rfl, hc⟩ := h.head
  obtain ⟨m, rfl⟩ : ∃ m, n = m + 1 := ⟨n - 1, by omega⟩
  exact ⟨h.digits.of_subset (List.take_subset _ _), c, _, rfl, hc⟩

theorem IsLeading.drop {ds : Text} (h : IsLeading ds) (n : Nat) : AreDigits (ds.drop n) :=
  h.digits.of_subset (List.drop_subset n ds)

theorem isLeading_ofNat {n : Nat} (hn : n ≠ 0) : IsLeading (Text.ofNat n) := by
  obtain ⟨d, ds, hdigits, hzero⟩ := head_ofNat n
  refine ⟨areDigits_ofNat n, ?_⟩
  cases htext : Text.ofNat n with
  | nil => exact absurd htext (Text.ofNat_ne_nil n)
  | cons c r =>
    refine ⟨c, r, rfl, ?_⟩
    rintro rfl
    rw [htext] at hdigits
    exact hn (hzero (List.cons.inj hdigits).1.symm)

theorem isLeading_stripZeros {d : Decimal} (h : d.coefficient ≠ 0) : IsLeading d.stripZeros.1 := by
  have hds := isLeading_ofNat h
  have hprefix : d.stripZeros.1 <+: Text.ofNat d.coefficient := List.rdropWhile_prefix _ _
  obtain ⟨c, r, hshape, hc⟩ := hds.head
  refine ⟨hds.digits.of_subset hprefix.subset, ?_⟩
  cases hkept : d.stripZeros.1 with
  | nil =>
    have hall := (List.rdropWhile_eq_nil_iff.mp hkept) c (by rw [hshape]; exact List.mem_cons_self)
    exact absurd (of_decide_eq_true hall) hc
  | cons c' r' =>
    rw [hkept, hshape] at hprefix
    obtain rfl : c' = c := (List.cons_prefix_cons.mp hprefix).1
    exact ⟨c', r', rfl, hc⟩

/-! ## The parts of a number -/

theorem takeFraction_append {ds rest : Text} (hds : AreDigits ds) (hne : ds ≠ [])
    (h : ∀ c ∈ rest.head?, ¬c.isAsciiDigit) :
    takeFraction (.ofChar '.' :: (ds ++ rest)) = (some (ds.map (·.val - 0x30)), rest) := by
  have hsome : (ds.map (·.val - 0x30)).isEmpty = false := by simpa using hne
  simp only [takeFraction, takeDigits_append hds h, hsome, decide_true, Bool.not_false, Bool.and_self, ↓reduceIte]

theorem takeFraction_of_ne {rest : Text} (h : ∀ c ∈ rest.head?, c ≠ .ofChar '.') :
    takeFraction rest = (none, rest) := by
  cases rest with
  | nil => rfl
  | cons c r => simp [takeFraction, h c rfl]

theorem takeExponent_append (k : Int) :
    ∃ power, ∀ rest, (∀ c ∈ rest.head?, ¬c.isAsciiDigit) →
      takeExponent (exponentText "e" k ++ rest) = (some power, rest) := by
  let n : Int := readDigits 0 (((Text.ofNat k.natAbs).padLeft 2 '0').map (·.val - 0x30))
  have hsome : (((Text.ofNat k.natAbs).padLeft 2 '0').map (·.val - 0x30)).isEmpty = false := by
    simp [Text.padLeft, Text.ofNat_ne_nil]
  have hmark : (CodePoint.ofChar 'e').isIn "eE" := by decide
  have hplus : CodePoint.ofChar '+' ≠ .ofChar '-' := by decide
  refine ⟨if k < 0 then -n else n, fun rest hrest => ?_⟩
  have htake := takeDigits_append (areDigits_padLeft 2 k.natAbs) hrest
  by_cases hk : k < 0
  · have hshape : exponentText "e" k ++ rest =
        .ofChar 'e' :: .ofChar '-' :: ((Text.ofNat k.natAbs).padLeft 2 '0' ++ rest) := by
      rw [exponentText, if_pos hk]
      rfl
    rw [hshape, if_pos hk]
    simp only [takeExponent, hmark, ↓reduceIte, takeSign, htake, hsome, Bool.false_eq_true, n]
  · have hshape : exponentText "e" k ++ rest =
        .ofChar 'e' :: .ofChar '+' :: ((Text.ofNat k.natAbs).padLeft 2 '0' ++ rest) := by
      rw [exponentText, if_neg hk]
      rfl
    rw [hshape, if_neg hk]
    simp only [takeExponent, hmark, ↓reduceIte, takeSign, hplus, htake, hsome, Bool.false_eq_true, n]

/-- The number with these digits before and behind the point, and this power of ten. -/
def numberOf (negative : Bool) (ds : List Nat) (fraction : Option (List Nat)) (power : Option Int) : Binary64 :=
  .ofDecimal negative (readDigits 0 (ds ++ fraction.getD [])) (power.getD 0 - (fraction.getD []).length)

theorem readNumber_of_parts {t middle behind rest : Text} {ds : List Nat} {fraction : Option (List Nat)}
    {power : Option Int} (hwhole : takeIntegerPart t = some (ds, middle))
    (hfraction : takeFraction middle = (fraction, behind)) (hpower : takeExponent behind = (power, rest))
    (h : fraction ≠ none ∨ power ≠ none) (negative : Bool) :
    readNumber negative t = .ok (.float (numberOf negative ds fraction power), rest) := by
  simp only [readNumber, hwhole, hfraction, hpower]
  cases fraction with
  | some ds => rfl
  | none =>
    cases power with
    | some k => rfl
    | none => simp at h

/-! ## Numbers with a point or a power of ten -/

/-- The text is that of a number with a fraction, with any sign and whatever follows. -/
structure IsNumeral (t : Text) : Prop where
  read : ∀ negative, ∃ x, ∀ rest, Ends rest → readNumber negative (t ++ rest) = .ok (.float x, rest)
  head : ∃ c r, t = c :: r ∧ c.isAsciiDigit

theorem IsWhole.head {ds : Text} (h : IsWhole ds) (behind : Text) :
    ∃ c r, ds ++ behind = c :: r ∧ c.isAsciiDigit := by
  obtain ⟨d, r, hdigits, -⟩ := h.shape
  have hne : ds ≠ [] := by
    rintro rfl
    simp at hdigits
  obtain ⟨c, r, rfl, hc⟩ := cons_of_isAsciiDigit hne h.digits
  exact ⟨c, _, rfl, hc⟩

section Parts

variable {whole fraction : Text} (hwhole : IsWhole whole) (hfraction : AreDigits fraction)
include hwhole hfraction

theorem isNumeral_point (hne : fraction ≠ []) : IsNumeral (whole ++ .ofChar '.' :: fraction) where
  read negative := by
    refine ⟨numberOf negative (whole.map (·.val - 0x30)) (some (fraction.map (·.val - 0x30))) none,
      fun rest hrest => ?_⟩
    have hpoint : ∀ c ∈ (CodePoint.ofChar '.' :: (fraction ++ rest)).head?, ¬c.isAsciiDigit := by
      rintro c ⟨⟩
      decide
    rw [List.append_assoc]
    exact readNumber_of_parts (takeIntegerPart_append hwhole hpoint)
      (takeFraction_append hfraction hne (not_isAsciiDigit_of_ends hrest)) (takeExponent_of_ends hrest)
      (.inl (by simp)) negative
  head := hwhole.head _

/-- The digits behind the point may be missing where a power of ten follows. -/
theorem isNumeral_power (k : Int) :
    IsNumeral (whole ++ (if fraction = [] then [] else .ofChar '.' :: fraction) ++ exponentText "e" k) where
  read negative := by
    obtain ⟨power, hpower⟩ := takeExponent_append k
    have hmark : ∀ rest, ∀ c ∈ (exponentText "e" k ++ rest).head?,
        ¬c.isAsciiDigit ∧ c ≠ .ofChar '.' := by
      rintro rest c ⟨⟩
      decide
    by_cases hnone : fraction = []
    · refine ⟨numberOf negative (whole.map (·.val - 0x30)) none (some power), fun rest hrest => ?_⟩
      rw [if_pos hnone, List.append_nil, List.append_assoc]
      exact readNumber_of_parts (takeIntegerPart_append hwhole fun c hc => (hmark rest c hc).1)
        (takeFraction_of_ne fun c hc => (hmark rest c hc).2) (hpower rest (not_isAsciiDigit_of_ends hrest))
        (.inr (by simp)) negative
    · refine ⟨numberOf negative (whole.map (·.val - 0x30)) (some (fraction.map (·.val - 0x30))) (some power),
        fun rest hrest => ?_⟩
      have hpoint : ∀ c ∈ (CodePoint.ofChar '.' :: (fraction ++ (exponentText "e" k ++ rest))).head?,
          ¬c.isAsciiDigit := by
        rintro c ⟨⟩
        decide
      rw [if_neg hnone, List.append_assoc, List.append_assoc]
      exact readNumber_of_parts (takeIntegerPart_append hwhole hpoint)
        (takeFraction_append hfraction hnone fun c hc => (hmark rest c hc).1)
        (hpower rest (not_isAsciiDigit_of_ends hrest)) (.inl (by simp)) negative
  head := by
    rw [List.append_assoc]
    exact hwhole.head _

end Parts

theorem isWhole_zero : IsWhole "0" := isWhole_ofNat 0

section Leading

variable {ds : Text} (h : IsLeading ds)
include h

theorem isNumeral_positional (point : Int) : IsNumeral (positional ds point) := by
  have hne : ds ≠ [] := by
    obtain ⟨c, r, rfl, -⟩ := h.head
    exact List.cons_ne_nil c r
  simp only [positional]
  split_ifs with hbefore hbehind
  · have hfraction : zeros point.natAbs ++ ds ≠ [] := by simp [hne]
    have hnumeral := isNumeral_point isWhole_zero ((areDigits_zeros _).append h.digits) hfraction
    rw [List.append_assoc]
    exact hnumeral
  · have hnumeral := isNumeral_point (h.append (areDigits_zeros (point.toNat - ds.length))).isWhole
      (areDigits_zeros 1) (by decide)
    exact hnumeral
  · have hdrop : ds.drop point.toNat ≠ [] := by
      rw [Ne, List.drop_eq_nil_iff]
      exact hbehind
    have hnumeral := isNumeral_point (h.take (by omega : 0 < point.toNat)).isWhole (h.drop _) hdrop
    rw [List.append_assoc]
    exact hnumeral

theorem isNumeral_scientific (point : Int) : IsNumeral (scientific ds point) := by
  have hnumeral := isNumeral_power (h.take Nat.one_pos).isWhole (h.drop 1) (point - 1)
  have hfraction : ds.drop 1 = [] ↔ ds.length ≤ 1 := List.drop_eq_nil_iff
  simp only [hfraction] at hnumeral
  exact hnumeral

end Leading

/-! ## Written numbers -/

theorem exists_written_finite (negative : Bool) (m : Nat) (e : Int) :
    ∃ t, IsNumeral t ∧
      (Binary64.finite negative m e).written = (if negative then "-" else "" : Text) ++ t := by
  have hzero : IsNumeral "0.0" := isNumeral_point isWhole_zero (areDigits_zeros 1) (by decide)
  by_cases hm : m = 0
  · exact ⟨_, hzero, by simp only [Binary64.written, hm, ↓reduceIte]⟩
  · simp only [Binary64.written, hm, ↓reduceIte]
    refine ⟨_, ?_, rfl⟩
    rcases Binary64.coefficient_shortest hm e with hnone | hcoefficient
    · rw [hnone]
      exact hzero
    · have hds := isLeading_stripZeros hcoefficient
      split_ifs
      · exact isNumeral_positional hds _
      · exact isNumeral_scientific hds _

theorem spells_numeral {t : Text} (h : IsNumeral t) (negative : Bool) (depth : Nat) :
    ∃ x, Spells (readValue depth) ((if negative then "-" else "" : Text) ++ t) (.float x) := by
  obtain ⟨x, hread⟩ := h.read negative
  obtain ⟨c, r, rfl, hc⟩ := h.head
  refine ⟨x, ?_⟩
  cases negative with
  | true =>
    refine ⟨fun rest hrest => ?_, _, _, rfl, by decide, by decide⟩
    have hshape : (Text.ofString "-" ++ c :: r) ++ rest = .ofChar '-' :: c :: (r ++ rest) := rfl
    rw [if_pos rfl, hshape, readValue_scalar (by decide), readScalar_minus hc]
    exact hread rest hrest
  | false =>
    have hbracket : c ≠ .ofChar ']' := by
      rintro rfl
      exact absurd hc (by decide)
    refine ⟨fun rest hrest => ?_, c, r, rfl, CodePoint.not_isIn hc (by decide), hbracket⟩
    have hshape : (Text.ofString "" ++ c :: r) ++ rest = c :: (r ++ rest) := rfl
    rw [if_neg Bool.false_ne_true, hshape, readValue_scalar (CodePoint.not_isIn hc (by decide)),
      readScalar_digit hc]
    exact hread rest hrest

/-- Every number that is written is read as a number, if not always as the same. -/
theorem exists_spells_writeFloat (x : Binary64) (depth : Nat) :
    ∃ y, Spells (readValue depth) (writeFloat x) (.float y) := by
  cases x with
  | nan => exact ⟨.nan, spells_word (.tail _ (.tail _ (.tail _ (.head _)))) depth⟩
  | infinite negative =>
    refine ⟨.infinite negative, ?_⟩
    cases negative with
    | false => exact spells_word (.tail _ (.tail _ (.tail _ (.tail _ (.head _))))) depth
    | true => exact spells_word (.tail _ (.tail _ (.tail _ (.tail _ (.tail _ (.head _)))))) depth
  | finite negative m e =>
    obtain ⟨t, ht, hwritten⟩ := exists_written_finite negative m e
    have hshape : writeFloat (.finite negative m e) = (Binary64.finite negative m e).written := rfl
    rw [hshape, hwritten]
    exact spells_numeral ht negative depth

end Json
end Findings
