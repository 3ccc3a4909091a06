import Findings.Proofs.Lists
import Findings.Proofs.Text.Characters
import Findings.Proofs.Text.Surrogates
import Findings.Text.Utf8

/-!
# Text in UTF-8

No octets spell a surrogate (`isEncodable_of_decode?`), and a text without surrogates comes back from its
octets (`decode?_encode`).
-/

namespace Findings.Utf8

/-! ## What octets spell -/

/-- The number that `n` and tail octets spell. -/
def spelled (n : Nat) (tail : List Nat) : Nat := tail.foldl (fun n b => n * 64 + (b - 0x80)) n

theorem takeTail_bounds {ranges : List (Nat × Nat)} {low n high v : Nat} {bs rest : List UInt8}
    (hlow : low ≤ n) (hhigh : n ≤ high) (h : takeTail n ranges bs = (.ok v, rest)) :
    spelled low (ranges.map (·.1)) ≤ v ∧ v ≤ spelled high (ranges.map (·.2)) := by
  induction ranges generalizing low n high bs rest with
  | nil =>
    simp only [takeTail, Prod.mk.injEq, Except.ok.injEq] at h
    obtain ⟨rfl, -⟩ := h
    exact ⟨hlow, hhigh⟩
  | cons r ranges ih =>
    cases bs with
    | nil => simp [takeTail] at h
    | cons b bs =>
      rw [takeTail] at h
      split at h
      · next hb =>
        rw [Bool.and_eq_true, decide_eq_true_eq, decide_eq_true_eq] at hb
        have hmin : low * 64 + (r.1 - 0x80) ≤ n * 64 + (b.toNat - 0x80) :=
          Nat.add_le_add (Nat.mul_le_mul_right 64 hlow) (Nat.sub_le_sub_right hb.1 _)
        have hmax : n * 64 + (b.toNat - 0x80) ≤ high * 64 + (r.2 - 0x80) :=
          Nat.add_le_add (Nat.mul_le_mul_right 64 hhigh) (Nat.sub_le_sub_right hb.2 _)
        split at h
        · next v' rest' hv =>
          simp only [Prod.mk.injEq, Except.ok.injEq] at h
          obtain ⟨rfl, -⟩ := h
          have hbounds := ih hmin hmax hv
          simpa only [spelled, List.map_cons, List.foldl_cons] using hbounds
        · simp at h
      · simp at h

/-- What follows a lead octet keeps the number out of the surrogates. -/
theorem lead?_bounds {b n : Nat} {ranges : List (Nat × Nat)} (h : lead? b = some (n, ranges)) :
    spelled n (ranges.map (·.2)) < 0xD800 ∨ 0xE000 ≤ spelled n (ranges.map (·.1)) := by
  unfold lead? at h
  simp only at h
  split_ifs at h
  all_goals
    obtain ⟨rfl, rfl⟩ := Prod.mk.inj (Option.some.inj h)
    simp only [spelled, List.map_cons, List.map_nil, List.foldl_cons, List.foldl_nil]
    omega

theorem isSurrogate_ofNat {n : Nat} (h : n < 0xD800 ∨ 0xE000 ≤ n) :
    (CodePoint.ofNat n).isSurrogate = false := by
  unfold CodePoint.ofNat
  split_ifs
  · simp only [CodePoint.isSurrogate]
    simp
    omega
  · rfl

theorem isSurrogate_of_mem_parts {n : Nat} {bs : List UInt8} {c : CodePoint}
    (h : .char c ∈ parts n bs) : c.isSurrogate = false := by
  induction n generalizing bs with
  | zero => simp [parts] at h
  | succ n ih =>
    cases bs with
    | nil => simp [parts] at h
    | cons b bs =>
      rw [parts] at h
      split at h
      · exact ih (by simpa using h)
      · next bits ranges hlead =>
        split at h
        · next v rest htail =>
          rcases List.mem_cons.mp h with hc | h
          · obtain rfl := Part.char.inj hc
            have hbounds := takeTail_bounds (Nat.le_refl _) (Nat.le_refl _) htail
            have hrange := lead?_bounds hlead
            exact isSurrogate_ofNat (by omega)
          · exact ih h
        · exact ih (by simpa using h)

theorem isEncodable_of_decode? {bs : List UInt8} {t : Text} (h : decode? bs = some t) :
    t.isEncodable := by
  have hchars : ∀ {ps : List Part} {t : Text}, ps.mapM Part.char? = some t →
      ∀ c ∈ t, .char c ∈ ps := by
    intro ps
    induction ps with
    | nil => simp
    | cons p ps ih =>
      intro t ht c hc
      simp only [List.mapM_cons, Option.bind_eq_bind, Option.bind_eq_some_iff] at ht
      obtain ⟨d, hd, t', ht', heq⟩ := ht
      obtain rfl : d :: t' = t := Option.some.inj heq
      rcases List.mem_cons.mp hc with rfl | hc
      · cases p with
        | char e =>
          obtain rfl := Option.some.inj hd
          exact List.mem_cons_self
        | malformed => simp [Part.char?] at hd
      · exact List.mem_cons_of_mem _ (ih ht' c hc)
  rw [Text.isEncodable, List.all_eq_true]
  intro c hc
  rw [Bool.not_eq_true', isSurrogate_of_mem_parts (hchars h c hc)]

/-! ## Reading what was written -/

theorem toNat_ofNat {n : Nat} (h : n < 256) : (UInt8.ofNat n).toNat = n := by
  simp
  omega

theorem takeTail_nil {n v : Nat} (h : n = v) (bs : List UInt8) : takeTail n [] bs = (.ok v, bs) := by
  rw [takeTail, h]

/-- A tail octet in its range adds its six bits. -/
theorem takeTail_cons {n low high x v : Nat} {ranges : List (Nat × Nat)} {bs rest : List UInt8}
    (hlow : low ≤ 0x80 + x % 64) (hhigh : 0x80 + x % 64 ≤ high)
    (h : takeTail (n * 64 + x % 64) ranges bs = (.ok v, rest)) :
    takeTail n ((low, high) :: ranges) (.ofNat (0x80 + x % 64) :: bs) = (.ok v, rest) := by
  have hb : (UInt8.ofNat (0x80 + x % 64)).toNat = 0x80 + x % 64 := toNat_ofNat (by omega)
  have hbits : 0x80 + x % 64 - 0x80 = x % 64 := by omega
  simp only [takeTail, hb, hbits, hlow, hhigh, decide_true, Bool.and_self, ↓reduceIte, h]

theorem parts_cons {lead m : Nat} {c : CodePoint} {ranges : List (Nat × Nat)}
    {bs rest : List UInt8} (hlt : lead < 256) (hlead : lead? lead = some (m, ranges))
    (htail : takeTail m ranges bs = (.ok c.val, rest)) (n : Nat) :
    parts (n + 1) (.ofNat lead :: bs) = .char c :: parts n rest := by
  simp only [parts, toNat_ofNat hlt, hlead, htail, CodePoint.ofNat_self]

theorem lead?_two {v : Nat} (h : 0x80 ≤ v ∧ v ≤ 0x7FF) :
    lead? (0xC0 + v / 64) = some (v / 64, [(0x80, 0xBF)]) := by
  have hbits : 0xC0 + v / 64 - 0xC0 = v / 64 := by omega
  unfold lead?
  simp only
  split_ifs <;> first | omega | rw [hbits]

theorem lead?_three {v : Nat} (h : 0x800 ≤ v ∧ v ≤ 0xFFFF) (hs : v < 0xD800 ∨ 0xE000 ≤ v) :
    ∃ low high, lead? (0xE0 + v / 4096) = some (v / 4096, [(low, high), (0x80, 0xBF)]) ∧
      low ≤ 0x80 + v / 64 % 64 ∧ 0x80 + v / 64 % 64 ≤ high := by
  have hbits : 0xE0 + v / 4096 - 0xE0 = v / 4096 := by omega
  by_cases hzero : v / 4096 = 0
  · rw [hzero]
    exact ⟨0xA0, 0xBF, rfl, by omega, by omega⟩
  · by_cases hlast : v / 4096 = 0xD
    · rw [hlast]
      exact ⟨0x80, 0x9F, rfl, by omega, by omega⟩
    · refine ⟨0x80, 0xBF, ?_, by omega, by omega⟩
      unfold lead?
      simp only
      split_ifs <;> first | omega | rw [hbits]

theorem lead?_four {v : Nat} (h : 0x10000 ≤ v ∧ v < 0x110000) :
    ∃ low high, lead? (0xF0 + v / 262144) =
        some (v / 262144, [(low, high), (0x80, 0xBF), (0x80, 0xBF)]) ∧
      low ≤ 0x80 + v / 4096 % 64 ∧ 0x80 + v / 4096 % 64 ≤ high := by
  have hbits : 0xF0 + v / 262144 - 0xF0 = v / 262144 := by omega
  by_cases hzero : v / 262144 = 0
  · rw [hzero]
    exact ⟨0x90, 0xBF, rfl, by omega, by omega⟩
  · by_cases hlast : v / 262144 = 4
    · rw [hlast]
      exact ⟨0x80, 0x8F, rfl, by omega, by omega⟩
    · refine ⟨0x80, 0xBF, ?_, by omega, by omega⟩
      unfold lead?
      simp only
      split_ifs <;> first | omega | rw [hbits]

theorem parts_encodeChar {c : CodePoint} (h : c.isSurrogate = false) (n : Nat) (rest : List UInt8) :
    parts (n + 1) (encodeChar c ++ rest) = .char c :: parts n rest := by
  have hlt := c.isLt
  have hs : c.val < 0xD800 ∨ 0xE000 ≤ c.val := by
    simp [CodePoint.isSurrogate] at h
    omega
  unfold encodeChar
  simp only [Nat.div_one]
  split_ifs with h1 h2 h3
  · have hlead : lead? c.val = some (c.val, []) := by
      unfold lead?
      exact if_pos h1
    exact parts_cons (by omega) hlead (takeTail_nil rfl rest) n
  · refine parts_cons (by omega) (lead?_two (by omega)) ?_ n
    exact takeTail_cons (by omega) (by omega) (takeTail_nil (by omega) rest)
  · obtain ⟨low, high, hlead, hlow, hhigh⟩ := lead?_three (by omega) hs
    refine parts_cons (by omega) hlead ?_ n
    exact takeTail_cons hlow hhigh (takeTail_cons (by omega) (by omega)
      (takeTail_nil (by omega) rest))
  · obtain ⟨low, high, hlead, hlow, hhigh⟩ := lead?_four (by omega : 0x10000 ≤ c.val ∧ _)
    refine parts_cons (by omega) hlead ?_ n
    exact takeTail_cons hlow hhigh (takeTail_cons (by omega) (by omega)
      (takeTail_cons (by omega) (by omega) (takeTail_nil (by omega) rest)))

theorem parts_encode {t : Text} (h : t.isEncodable) {n : Nat} (hn : t.length ≤ n) :
    parts n (encode t) = t.map .char := by
  induction t generalizing n with
  | nil => cases n <;> rfl
  | cons c t ih =>
    obtain ⟨m, rfl⟩ : ∃ m, n = m + 1 := ⟨n - 1, by rw [List.length_cons] at hn; omega⟩
    obtain ⟨hc, ht⟩ := Text.isEncodable_cons.mp h
    rw [encode, List.flatMap_cons, parts_encodeChar hc, List.map_cons]
    exact congrArg _ (ih ht (Nat.le_of_succ_le_succ hn))

theorem length_le_encode (t : Text) : t.length ≤ (encode t).length := by
  induction t with
  | nil => exact Nat.le_refl 0
  | cons c t ih =>
    have hc : 0 < (encodeChar c).length := by
      unfold encodeChar
      simp only
      split_ifs <;> simp
    rw [encode, List.flatMap_cons, List.length_append, List.length_cons]
    rw [encode] at ih
    omega

theorem decode?_encode {t : Text} (h : t.isEncodable) : decode? (encode t) = some t := by
  rw [decode?, partsOf, parts_encode h (length_le_encode t)]
  have hchar : ∀ c, (Part.char c).char? = pure c := fun _ => rfl
  exact mapM_map_eq_self hchar t

end Findings.Utf8
