import Findings.Text.Decimal
import Mathlib.Algebra.Order.Ring.Nat

/-!
# Reading integers back

An integer is written as its decimal digits, after a minus sign if it is negative. `readInteger` takes
such a numeral of any length and gives back the integer (`readInteger_ofInt`). No character other than
digits and the sign occurs in a numeral (`mem_ofInt`). Whether an integer can be written out is a matter of
its size (`legible_iff`).
-/

namespace Findings.CodePoint

theorem ofChar_val (c : Char) : (ofChar c).val = c.toNat := by
  have h : c.toNat < 0x110000 := by
    rcases c.valid with h | h
    · exact Nat.lt_trans h (by decide)
    · exact h.2
  simp [ofChar, ofNat, h]

theorem isAsciiDigit_ofChar (c : Char) : (ofChar c).isAsciiDigit = c.isDigit := by
  rw [Bool.eq_iff_iff, Char.isDigit_iff_toNat]
  simp [isAsciiDigit, ofChar_val]

end Findings.CodePoint

namespace Findings.Text

/-- The number that ASCII digits spell. -/
def readNatural (t : Text) : Option Nat :=
  if t ≠ [] ∧ t.all (·.isAsciiDigit) then some (readDigits 0 (t.map (·.val - 0x30))) else none

/-- The integer that ASCII digits spell, with a minus sign in front or without. -/
def readInteger : Text → Option Int
  | [] => none
  | c :: r =>
    if c = .ofChar '-' then (readNatural r).map fun n => -(n : Int)
    else (readNatural (c :: r)).map Int.ofNat

theorem mem_ofNat {n : Nat} {c : CodePoint} (h : c ∈ ofNat n) : c.isAsciiDigit := by
  obtain ⟨d, hd, rfl⟩ := List.mem_map.mp h
  rw [CodePoint.isAsciiDigit_ofChar]
  exact Nat.isDigit_of_mem_toDigits (by decide) (by decide) hd

theorem ofNat_ne_nil (n : Nat) : ofNat n ≠ [] := by
  simp [ofNat, digits, Nat.toDigits_ne_nil]

theorem readDigits_ofChars (n : Nat) (cs : List Char) :
    readDigits n ((cs.map CodePoint.ofChar).map (·.val - 0x30)) = Nat.ofDigitChars 10 cs n := by
  induction cs generalizing n with
  | nil => simp [readDigits]
  | cons c cs ih =>
    rw [Nat.ofDigitChars_cons, ← ih]
    simp [readDigits, CodePoint.ofChar_val]

theorem readNatural_ofNat (n : Nat) : readNatural (ofNat n) = some n := by
  have hdigits : (ofNat n).all (·.isAsciiDigit) := List.all_eq_true.mpr fun _ h => mem_ofNat h
  rw [readNatural, if_pos ⟨ofNat_ne_nil n, hdigits⟩, ofNat, digits, readDigits_ofChars,
    Nat.ofDigitChars_ten_toDigits]

theorem length_ofNat_le_iff {n k : Nat} (hk : 0 < k) : (ofNat n).length ≤ k ↔ n < 10 ^ k := by
  rw [ofNat, digits, List.length_map, Nat.length_toDigits_le_iff (by decide) hk]

/-- A numeral has no other characters than digits and the sign. -/
theorem mem_ofInt {n : Int} {c : CodePoint} (h : c ∈ ofInt n) :
    c = .ofChar '-' ∨ c.isAsciiDigit := by
  cases n with
  | ofNat n => exact .inr (mem_ofNat h)
  | negSucc n =>
    rcases List.mem_append.mp h with h | h
    · exact .inl (List.mem_singleton.mp h)
    · exact .inr (mem_ofNat h)

theorem not_mem_ofInt {n : Int} {c : CodePoint} (hsign : c ≠ .ofChar '-')
    (hdigit : ¬c.isAsciiDigit) : c ∉ ofInt n := by
  intro h
  rcases mem_ofInt h with h | h
  · exact hsign h
  · exact hdigit h

theorem readInteger_ofInt (n : Int) : readInteger (ofInt n) = some n := by
  cases n with
  | negSucc n =>
    show readInteger (.ofChar '-' :: ofNat (n + 1)) = _
    rw [readInteger, if_pos rfl, readNatural_ofNat]
    rfl
  | ofNat n =>
    have hread := readNatural_ofNat n
    show readInteger (ofNat n) = _
    match ht : ofNat n with
    | [] => exact absurd ht (ofNat_ne_nil n)
    | c :: r =>
      have hc : c ≠ .ofChar '-' := by
        rintro rfl
        exact absurd (mem_ofNat (n := n) (ht ▸ List.mem_cons_self)) (by decide)
      rw [readInteger, if_neg hc, ← ht, hread]
      rfl

end Findings.Text

namespace Findings

/-! ## Numerals of limited length -/

theorem legible_iff {n : Int} : Legible n ↔ n.natAbs < 10 ^ digitLimit :=
  Text.length_ofNat_le_iff (by decide)

/-- The least integer that has too many digits. -/
@[irreducible] def overlong : Int := (10 ^ digitLimit : Nat)

theorem not_legible_overlong : ¬Legible overlong := by
  rw [legible_iff, overlong, Int.natAbs_natCast]
  exact Nat.lt_irrefl _

theorem le_overlong {n : Nat} (h : n ≤ 10) : (n : Int) ≤ overlong := by
  rw [overlong]
  exact Int.ofNat_le.mpr (h.trans (Nat.le_self_pow (by decide) 10))

end Findings
