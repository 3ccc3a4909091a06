import Findings.Text.Basic

/-!
# Characters

A code point is its number (`CodePoint.ofNat_self`). What holds of the characters of a string holds of a
character that is one of them (`CodePoint.all_of_isIn`), and a character for which it fails is none of them
(`CodePoint.not_isIn`).
-/

namespace Findings.CodePoint

theorem ofNat_val {n : Nat} (h : n < 0x110000) : (ofNat n).val = n := by simp [ofNat, h]

@[simp] theorem ofNat_self (c : CodePoint) : ofNat c.val = c := by simp [ofNat, c.isLt]

theorem isIn_iff {c : CodePoint} {s : String} : c.isIn s ↔ c ∈ Text.ofString s := by
  simp [isIn, Text.ofString]

theorem all_of_isIn {c : CodePoint} {s : String} (h : c.isIn s) {p : CodePoint → Bool}
    (hp : (Text.ofString s).all p) : p c :=
  List.all_eq_true.mp hp c (isIn_iff.mp h)

theorem not_of_isIn {c : CodePoint} {s : String} (h : c.isIn s) {p : CodePoint → Bool}
    (hp : (Text.ofString s).all (!p ·)) : ¬p c := by
  simpa using all_of_isIn h hp

theorem not_isIn {c : CodePoint} {p : CodePoint → Bool} (h : p c) {s : String}
    (hp : (Text.ofString s).all (!p ·)) : ¬c.isIn s :=
  fun hc => not_of_isIn hc hp h

end Findings.CodePoint
