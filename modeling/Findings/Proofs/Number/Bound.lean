import Findings.Number.Binary64
import Mathlib.Algebra.Order.Ring.Nat
import Mathlib.Tactic.SplitIfs

/-!
# How large a number that was read can be

A ratio is rounded to a multiple of a power of two, so that its integer part grows by no more than that power
(`Ratio.floor_round_le`). A decimal number with more than 310 digits in front of the point is read as
infinite, so the integer part of any other has no more than 972 digits (`Binary64.truncate?_ofDecimal`).
-/

namespace Findings

namespace Ratio

theorem floor_scale_natCast (m k : Nat) : (scale ⟨m, 1⟩ 2 k).floor = m * 2 ^ k := by
  show m * Nat.pow 2 k / 1 = _
  rw [Nat.div_one]
  rfl

theorem floor_scale_neg (m k : Nat) : (scale ⟨m, 1⟩ 2 (-(k : Int))).floor = m / 2 ^ k := by
  cases k with
  | zero => simp [scale, floor]
  | succ k =>
    show m / (1 * Nat.pow 2 (k + 1)) = _
    rw [Nat.one_mul]
    rfl

theorem roundDiv_le (num den : Nat) : roundDiv num den ≤ num / den + 1 := by
  unfold roundDiv
  simp only
  split_ifs <;> omega

theorem scale_natCast (r : Ratio) (k : Nat) : r.scale 2 k = ⟨r.num * 2 ^ k, r.den⟩ := rfl

theorem scale_neg (r : Ratio) (k : Nat) : r.scale 2 (-(k : Int)) = ⟨r.num, r.den * 2 ^ k⟩ := by
  cases k with
  | zero => simp [scale]
  | succ k => rfl

/-- Rounding a ratio to a multiple of `2 ^ e` adds at most `2 ^ e` to its integer part, or one if `e` is
negative. -/
theorem floor_round_le (r : Ratio) {e : Int} {b : Nat} (he : e ≤ b) :
    (scale ⟨(r.scale 2 (-e)).round, 1⟩ 2 e).floor ≤ r.floor + 2 ^ b := by
  obtain ⟨k, rfl | rfl⟩ := e.eq_nat_or_neg
  · have hk : 2 ^ k ≤ 2 ^ b := Nat.pow_le_pow_right (by decide) (by omega)
    rw [floor_scale_natCast, scale_neg]
    calc roundDiv r.num (r.den * 2 ^ k) * 2 ^ k
        ≤ (r.num / (r.den * 2 ^ k) + 1) * 2 ^ k := Nat.mul_le_mul_right _ (roundDiv_le _ _)
      _ = r.floor / 2 ^ k * 2 ^ k + 2 ^ k := by rw [← Nat.div_div_eq_div_mul, Nat.succ_mul, floor]
      _ ≤ r.floor + 2 ^ b := Nat.add_le_add (Nat.div_mul_le_self _ _) hk
  · have hpow : 0 < 2 ^ k := Nat.two_pow_pos k
    rw [floor_scale_neg, Int.neg_neg, scale_natCast]
    calc roundDiv (r.num * 2 ^ k) r.den / 2 ^ k
        ≤ (r.num * 2 ^ k / r.den + 1) / 2 ^ k := Nat.div_le_div_right (roundDiv_le _ _)
      _ ≤ (r.num * 2 ^ k / r.den + 2 ^ k) / 2 ^ k :=
          Nat.div_le_div_right (Nat.add_le_add_left hpow _)
      _ = r.floor + 1 := by
          rw [Nat.add_div_right _ hpow, Nat.div_div_eq_div_mul, Nat.mul_div_mul_right _ _ hpow, floor]
      _ ≤ r.floor + 2 ^ b := Nat.add_le_add_left Nat.one_le_two_pow _

theorem floor_scale_succ (m : Nat) (e : Int) :
    (scale ⟨m, 1⟩ 2 (e + 1)).floor = (scale ⟨2 * m, 1⟩ 2 e).floor := by
  obtain ⟨k, rfl | rfl⟩ := e.eq_nat_or_neg
  · have hsucc : (k : Int) + 1 = (k + 1 : Nat) := rfl
    rw [hsucc, floor_scale_natCast, floor_scale_natCast, Nat.pow_succ, Nat.mul_comm (2 ^ k),
      ← Nat.mul_assoc, Nat.mul_comm m]
  · cases k with
    | zero =>
      have hone : -((0 : Nat) : Int) + 1 = (1 : Nat) := rfl
      rw [hone, floor_scale_natCast, floor_scale_neg, Nat.pow_one, Nat.pow_zero, Nat.div_one,
        Nat.mul_comm]
    | succ k =>
      have hpred : -((k + 1 : Nat) : Int) + 1 = -(k : Int) := by omega
      rw [hpred, floor_scale_neg, floor_scale_neg, Nat.pow_succ, Nat.mul_comm (2 ^ k),
        Nat.mul_div_mul_left _ _ (by decide)]

theorem floor_scale_zero (e : Int) : (scale ⟨0, 1⟩ 2 e).floor = 0 := by
  obtain ⟨k, rfl | rfl⟩ := e.eq_nat_or_neg
  · rw [floor_scale_natCast, Nat.zero_mul]
  · rw [floor_scale_neg, Nat.zero_div]

/-- A ratio with at most `size` digits in front of the point. -/
theorem floor_scale_ten {m : Nat} {k : Int} {size : Nat}
    (h : (Nat.toDigits 10 m).length + k ≤ size) : (scale ⟨m, 1⟩ 10 k).floor < 10 ^ size := by
  have hm : m < 10 ^ (Nat.toDigits 10 m).length :=
    (Nat.length_toDigits_le_iff (by decide) Nat.length_toDigits_pos).mp (Nat.le_refl _)
  cases k with
  | ofNat k =>
    have hpow : 0 < 10 ^ k := Nat.pow_pos (by decide)
    show m * Nat.pow 10 k / 1 < _
    rw [Nat.div_one]
    calc m * 10 ^ k < 10 ^ (Nat.toDigits 10 m).length * 10 ^ k := Nat.mul_lt_mul_of_pos_right hm hpow
      _ = 10 ^ ((Nat.toDigits 10 m).length + k) := (Nat.pow_add _ _ _).symm
      _ ≤ 10 ^ size := Nat.pow_le_pow_right (by decide) (by simp at h; omega)
  | negSucc k =>
    have hpow : 0 < 10 ^ (k + 1) := Nat.pow_pos (by decide)
    show m / (1 * Nat.pow 10 (k + 1)) < _
    rw [Nat.one_mul]
    refine (Nat.div_lt_iff_lt_mul hpow).mpr (hm.trans_le ?_)
    rw [← Nat.pow_add]
    exact Nat.pow_le_pow_right (by decide) (by omega)

end Ratio

namespace Binary64

theorem truncate?_finite {negative : Bool} {m : Nat} {e n : Int}
    (h : (if e > maxExponent then .infinite negative else finite negative m e).truncate? = some n) :
    e ≤ 971 ∧ n.natAbs = (magnitude m e).floor := by
  split_ifs at h with he
  · simp [truncate?] at h
  · obtain rfl := Option.some.inj h
    refine ⟨by simpa [maxExponent] using he, ?_⟩
    split_ifs <;> simp

theorem truncate?_ofRatio {negative : Bool} {r : Ratio} {n : Int}
    (h : (ofRatio negative r).truncate? = some n) : ∃ b ≤ 971, n.natAbs ≤ r.floor + 2 ^ b := by
  unfold ofRatio at h
  generalize max (r.log2 - 52) minExponent = e at h
  by_cases hzero : r.num = 0
  · rw [if_pos hzero] at h
    obtain rfl := Option.some.inj h
    refine ⟨0, by decide, ?_⟩
    rw [magnitude, Ratio.floor_scale_zero]
    simp
  · rw [if_neg hzero] at h
    by_cases hcarry : (r.scale 2 (-e)).round = 2 * leastNormal
    · -- The mantissa is one power of two too long, and its half takes its place.
      simp only [hcarry, ↓reduceIte] at h
      obtain ⟨he, hn⟩ := truncate?_finite h
      refine ⟨e.toNat, by omega, ?_⟩
      rw [hn, magnitude, Ratio.floor_scale_succ, ← hcarry]
      exact r.floor_round_le (by omega)
    · simp only [hcarry, ↓reduceIte] at h
      obtain ⟨he, hn⟩ := truncate?_finite h
      refine ⟨e.toNat, by omega, ?_⟩
      rw [hn]
      exact r.floor_round_le (by omega)

theorem truncate?_ofDecimal {negative : Bool} {m : Nat} {k n : Int}
    (h : (ofDecimal negative m k).truncate? = some n) : ∃ b ≤ 972, n.natAbs < 10 ^ b := by
  unfold ofDecimal at h
  simp only at h
  split_ifs at h with hsmall hlarge
  · obtain rfl := Option.some.inj h
    refine ⟨0, by decide, ?_⟩
    rw [magnitude, Ratio.floor_scale_zero]
    simp
  · simp [truncate?] at h
  · obtain ⟨b, hb, hn⟩ := truncate?_ofRatio h
    have hfloor : (Ratio.scale ⟨m, 1⟩ 10 k).floor < 10 ^ max 310 b :=
      Ratio.floor_scale_ten (by omega)
    have hpow : 2 ^ b ≤ 10 ^ max 310 b := calc
      2 ^ b ≤ 10 ^ b := Nat.pow_le_pow_left (by decide) b
      _ ≤ 10 ^ max 310 b := Nat.pow_le_pow_right (by decide) (Nat.le_max_right 310 b)
    refine ⟨max 310 b + 1, by omega, ?_⟩
    rw [Nat.pow_succ]
    omega

end Binary64
end Findings
