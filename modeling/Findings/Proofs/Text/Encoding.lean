import Findings.Proofs.Text.Utf8
import Findings.Text.Encoding

/-!
# ASCII without null octets

Text of ASCII characters other than the null has one octet for each, and none of them is null or belongs to a
mark. So it is taken to be in UTF-8 and comes back (`decodeDetected?_encode`).
-/

namespace Findings.Encoding

/-- An octet that is neither null nor outside ASCII. -/
def IsAscii (b : UInt8) : Prop := b ≠ 0 ∧ b < 0x80

theorem ofNulls_ascii {bs : List UInt8} (h : ∀ b ∈ bs, IsAscii b) : ofNulls bs = .utf8 := by
  have hne : ∀ b ∈ bs, b ≠ 0 := fun b hb => (h b hb).1
  unfold ofNulls
  split
  · exact absurd rfl (hne 0 (by simp))
  · exact absurd rfl (hne 0 (by simp))
  · rw [if_neg (hne _ (by simp)), if_neg (hne _ (by simp))]
  · rfl

/-- Octets of ASCII start with no mark. -/
theorem detect_ascii {bs : List UInt8} (h : ∀ b ∈ bs, IsAscii b) : detect bs = (.utf8, bs) := by
  have hmark : ∀ mark : UInt8, mark = 0 ∨ 0x80 ≤ mark → mark ∉ bs := by
    intro mark hmark hmem
    obtain ⟨hne, hlt⟩ := h mark hmem
    rcases hmark with rfl | hle
    · exact hne rfl
    · exact UInt8.not_le.mpr hlt hle
  unfold detect
  split
  · exact absurd List.mem_cons_self (hmark _ (by decide))
  · exact absurd List.mem_cons_self (hmark _ (by decide))
  · exact absurd List.mem_cons_self (hmark _ (by decide))
  · exact absurd List.mem_cons_self (hmark _ (by decide))
  · exact absurd List.mem_cons_self (hmark _ (by decide))
  · rw [ofNulls_ascii h]

theorem encode_ascii {t : Text} (h : ∀ c ∈ t, c.val < 0x80) :
    Utf8.encode t = t.map fun c => .ofNat c.val := by
  induction t with
  | nil => rfl
  | cons c t ih =>
    rw [List.forall_mem_cons] at h
    have hc : Utf8.encodeChar c = [.ofNat c.val] := if_pos (Nat.le_of_lt_succ h.1)
    rw [Utf8.encode, List.flatMap_cons, hc, List.map_cons, ← ih h.2]
    rfl

/-- Text of ASCII characters other than the null is read as it was written. -/
theorem decodeDetected?_encode {t : Text} (h : ∀ c ∈ t, 0 < c.val ∧ c.val < 0x80) :
    decodeDetected? (Utf8.encode t) = some t := by
  have hoctets : ∀ b ∈ Utf8.encode t, IsAscii b := by
    rw [encode_ascii fun c hc => (h c hc).2, List.forall_mem_map]
    intro c hc
    obtain ⟨hpos, hlt⟩ := h c hc
    have hval : (UInt8.ofNat c.val).toNat = c.val := Utf8.toNat_ofNat (by omega)
    refine ⟨fun hzero => ?_, ?_⟩
    · rw [hzero] at hval
      exact absurd hval.symm (Nat.ne_of_gt hpos)
    · rw [UInt8.lt_iff_toNat_lt, hval]
      exact hlt
  have hencodable : t.isEncodable := by
    refine List.all_eq_true.mpr fun c hc => ?_
    have hlt := (h c hc).2
    rw [CodePoint.isSurrogate, Bool.not_eq_true', Bool.and_eq_false_iff, decide_eq_false_iff_not]
    omega
  rw [decodeDetected?, detect_ascii hoctets]
  exact Utf8.decode?_encode hencodable

end Findings.Encoding
