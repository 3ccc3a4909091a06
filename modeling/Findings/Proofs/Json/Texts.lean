import Findings.Json.Reader
import Findings.Json.Writer
import Findings.Proofs.Text.Numerals
import Findings.Proofs.Text.Surrogates

/-!
# Texts in JSON

Each character of a text is written in one or two spellings, and these are what is read again
(`readSpellings_writeText`). Only two numeric escapes in a row may be read as one character, a high surrogate
and a low one (`readText_writeText`); so a text without such a pair comes back (`respelled_eq_self`), and what
is read out of characters other than surrogates has none (`readText_unpaired`).
-/

namespace Findings.Json

/-! ## Hexadecimal numbers -/

def hexDigit (n : Nat) : CodePoint := .ofChar (Nat.digitChar n)

theorem hexValue?_hexDigit : ∀ n < 16, hexValue? (hexDigit n) = some n := by decide

theorem hex_one {n : Nat} (h : n < 16) : Text.hex 1 n = [hexDigit n] := by
  rw [Text.hex, Text.digits, Nat.toDigits_of_lt_base h]
  rfl

/-- The last digit and what is in front of it. -/
theorem hex_succ {width : Nat} (hwidth : 0 < width) (n : Nat) :
    Text.hex (width + 1) n = Text.hex width (n / 16) ++ [hexDigit (n % 16)] := by
  rcases Nat.lt_or_ge n 16 with h | h
  · obtain ⟨w, rfl⟩ : ∃ w, width = w + 1 := ⟨width - 1, by omega⟩
    have hzero : n / 16 = 0 ∧ n % 16 = n := by omega
    rw [hzero.1, hzero.2, Text.hex, Text.hex, Text.digits, Text.digits, Nat.toDigits_of_lt_base h,
      Nat.toDigits_zero]
    simp only [Text.padLeft, List.map_cons, List.map_nil, List.length_singleton,
      Nat.add_sub_cancel, List.append_assoc, List.singleton_append]
    rw [List.replicate_succ', List.append_assoc]
    rfl
  · rw [Text.hex, Text.digits, Nat.toDigits_of_base_le (by decide) h, List.map_append, Text.padLeft,
      List.length_append, List.map_singleton, List.length_singleton, Nat.add_sub_add_right,
      ← List.append_assoc]
    rfl

theorem hex_eq {n : Nat} (h : n < 0x10000) :
    Text.hex 4 n =
      [hexDigit (n / 4096), hexDigit (n / 256 % 16), hexDigit (n / 16 % 16), hexDigit (n % 16)] := by
  have hdiv : n / 16 / 16 = n / 256 ∧ n / 16 / 16 / 16 = n / 4096 := by omega
  rw [hex_succ (by decide), hex_succ (by decide), hex_succ (by decide), hex_one (by omega), hdiv.2,
    hdiv.1]
  rfl

theorem hexQuad?_hexDigit {a b c d : Nat} (ha : a < 16) (hb : b < 16) (hc : c < 16) (hd : d < 16) :
    hexQuad? (hexDigit a) (hexDigit b) (hexDigit c) (hexDigit d) =
      some (.ofNat (((a * 16 + b) * 16 + c) * 16 + d)) := by
  simp [hexQuad?, hexValue?_hexDigit, *]

/-! ## Spellings of characters -/

/-- How a character is spelled; `plain` tells which ones need no numeric escape. -/
def spellings (plain : CodePoint → Bool) (c : CodePoint) : List Spelling :=
  if (shortEscape? c).isSome || plain c then [.plain c]
  else if c.val ≤ 0xFFFF then [.escaped c]
  else [.escaped c.highHalf, .escaped c.lowHalf]

theorem readSpellings_unicodeEscape (c : CodePoint) (h : c.val < 0x10000) (rest : Text) :
    readSpellings (unicodeEscape c.val ++ rest) =
      (readSpellings rest).map fun p => (.escaped c :: p.1, p.2) := by
  have hquad : hexQuad? (hexDigit (c.val / 4096)) (hexDigit (c.val / 256 % 16))
      (hexDigit (c.val / 16 % 16)) (hexDigit (c.val % 16)) = some c := by
    have hval : ((c.val / 4096 * 16 + c.val / 256 % 16) * 16 + c.val / 16 % 16) * 16 + c.val % 16 =
        c.val := by omega
    rw [hexQuad?_hexDigit (by omega) (by omega) (by omega) (by omega), hval, CodePoint.ofNat_self]
  have hescape : unicodeEscape c.val ++ rest = .ofChar '\\' :: .ofChar 'u' ::
      hexDigit (c.val / 4096) :: hexDigit (c.val / 256 % 16) :: hexDigit (c.val / 16 % 16) ::
        hexDigit (c.val % 16) :: rest := by
    rw [unicodeEscape, hex_eq h]
    rfl
  rw [hescape, readSpellings.eq_def]
  simp only [hquad]
  rfl

theorem readSpellings_letter {e c : CodePoint} (he : e ≠ .ofChar 'u')
    (h : shortEscapeValue? e = some c) (rest : Text) :
    readSpellings (.ofChar '\\' :: e :: rest) =
      (readSpellings rest).map fun p => (.plain c :: p.1, p.2) := by
  have hquote : CodePoint.ofChar '\\' ≠ .ofChar '"' := by decide
  rw [readSpellings.eq_def]
  simp only [hquote, he, h, ↓reduceIte]

theorem shortEscape?_eq_some {c : CodePoint} {t : Text} (h : shortEscape? c = some t) :
    ∃ e, t = [.ofChar '\\', e] ∧ e ≠ .ofChar 'u' ∧ shortEscapeValue? e = some c := by
  unfold shortEscape? at h
  split_ifs at h with hquote hslash hnewline hreturn htab hfeed hback
  all_goals obtain rfl := Option.some.inj h
  · exact ⟨.ofChar '"', rfl, by decide, by rw [hquote]; decide⟩
  · exact ⟨.ofChar '\\', rfl, by decide, by rw [hslash]; decide⟩
  · exact ⟨.ofChar 'n', rfl, by decide, by rw [hnewline]; decide⟩
  · exact ⟨.ofChar 'r', rfl, by decide, by rw [hreturn]; decide⟩
  · exact ⟨.ofChar 't', rfl, by decide, by rw [htab]; decide⟩
  · exact ⟨.ofChar 'f', rfl, by decide, by rw [← c.ofNat_self, hfeed]; decide⟩
  · exact ⟨.ofChar 'b', rfl, by decide, by rw [← c.ofNat_self, hback]; decide⟩

theorem readSpellings_plain {c : CodePoint} (h : shortEscape? c = none) (hc : 0x20 ≤ c.val)
    (rest : Text) :
    readSpellings (c :: rest) = (readSpellings rest).map fun p => (.plain c :: p.1, p.2) := by
  have hquote : c ≠ .ofChar '"' := by
    rintro rfl
    exact absurd h (by decide)
  have hslash : c ≠ .ofChar '\\' := by
    rintro rfl
    exact absurd h (by decide)
  rw [readSpellings.eq_def]
  simp only [hquote, hslash, Nat.not_lt.mpr hc, ↓reduceIte]

theorem readSpellings_writeChar {plain : CodePoint → Bool} {c : CodePoint}
    (hplain : plain c → 0x20 ≤ c.val) (rest : Text) :
    readSpellings (writeChar plain c ++ rest) =
      (readSpellings rest).map fun p => (spellings plain c ++ p.1, p.2) := by
  unfold writeChar spellings
  cases hshort : shortEscape? c with
  | some t =>
    obtain ⟨e, rfl, he, hc⟩ := shortEscape?_eq_some hshort
    exact readSpellings_letter he hc rest
  | none =>
    by_cases hc : plain c
    · simpa [hc] using readSpellings_plain hshort (hplain hc) rest
    · by_cases hbasic : c.val ≤ 0xFFFF
      · simpa [hc, numericEscape, hbasic] using readSpellings_unicodeEscape c (by omega) rest
      · have hhigh := CodePoint.highHalf_val (Nat.lt_of_not_le hbasic)
        have hlow := CodePoint.lowHalf_val c
        have := c.isLt
        have hfirst := readSpellings_unicodeEscape c.highHalf (by omega)
          (unicodeEscape c.lowHalf.val ++ rest)
        have hsecond := readSpellings_unicodeEscape c.lowHalf (by omega) rest
        simp [hc, numericEscape, hbasic, hfirst, hsecond, Function.comp_def]

theorem readSpellings_writeText {plain : CodePoint → Bool} (hplain : ∀ c, plain c → 0x20 ≤ c.val)
    (t rest : Text) :
    readSpellings (t.flatMap (writeChar plain) ++ .ofChar '"' :: rest) =
      some (t.flatMap (spellings plain), rest) := by
  induction t with
  | nil =>
    rw [List.flatMap_nil, List.nil_append, readSpellings.eq_def]
    rfl
  | cons c t ih =>
    rw [List.flatMap_cons, List.append_assoc, readSpellings_writeChar (hplain c), ih]
    rfl

/-! ## Joining what was written -/

/-- An escaped character is joined with nothing unless it is a high surrogate in front of an escaped low
one. -/
theorem joinSpellings_escaped {c : CodePoint} {s : List Spelling}
    (h : ∀ d, s.head? = some (.escaped d) → ¬(c.isHighSurrogate ∧ d.isLowSurrogate)) :
    joinSpellings (.escaped c :: s) = c :: joinSpellings s := by
  match s with
  | [] => rfl
  | .plain d :: s => rfl
  | .escaped d :: s =>
    have hcd := h d rfl
    rw [joinSpellings, if_neg (by simpa using hcd)]

/-- Of a character that is spelled by an escape, only one in the basic plane can be a low surrogate. -/
theorem head_spellings {plain : CodePoint → Bool} {c d : CodePoint} {s : List Spelling}
    (h : (spellings plain c ++ s).head? = some (.escaped d)) (hd : d.isLowSurrogate) : d = c := by
  unfold spellings at h
  split_ifs at h with hshort hbasic
  · simp at h
  · simpa using h.symm
  · have hhigh := CodePoint.isHighSurrogate_highHalf (Nat.lt_of_not_le hbasic)
    have hdc : c.highHalf = d := by simpa using h
    rw [← hdc, CodePoint.not_isLowSurrogate_of_isHighSurrogate hhigh] at hd
    exact absurd hd Bool.false_ne_true

/-- A text as it is read after it was written. -/
def respelled (plain : CodePoint → Bool) (t : Text) : Text := joinSpellings (t.flatMap (spellings plain))

/-- A text without pairs of surrogates is read as it was written. -/
theorem respelled_eq_self (plain : CodePoint → Bool) {t : Text} (h : t.Unpaired) : respelled plain t = t := by
  unfold respelled
  induction t with
  | nil => rfl
  | cons c t ih =>
    obtain ⟨hhead, htail⟩ := Text.unpaired_cons.mp h
    have hnext : ∀ d, (t.flatMap (spellings plain)).head? = some (.escaped d) →
        ¬(c.isHighSurrogate ∧ d.isLowSurrogate) := by
      rintro d hd ⟨hc, hlow⟩
      cases t with
      | nil => simp at hd
      | cons e t =>
        obtain rfl := head_spellings hd hlow
        exact hhead d rfl ⟨hc, hlow⟩
    have hsurrogate : 0xFFFF < c.val → joinSpellings
        (.escaped c.highHalf :: .escaped c.lowHalf :: t.flatMap (spellings plain)) = c :: t := by
      intro hc
      have hhigh := CodePoint.isHighSurrogate_highHalf hc
      rw [joinSpellings, if_pos (by rw [hhigh, CodePoint.isLowSurrogate_lowHalf]; rfl),
        CodePoint.join_halves hc, ih htail]
    rw [List.flatMap_cons, spellings]
    split_ifs with hshort hbasic
    · exact congrArg (c :: ·) (ih htail)
    · rw [List.singleton_append, joinSpellings_escaped hnext, ih htail]
    · exact hsurrogate (Nat.lt_of_not_le hbasic)

theorem readText_writeText {plain : CodePoint → Bool} (hplain : ∀ c, plain c → 0x20 ≤ c.val)
    (t rest : Text) :
    readText (t.flatMap (writeChar plain) ++ .ofChar '"' :: rest) = .ok (respelled plain t, rest) := by
  simp only [readText, readSpellings_writeText hplain, respelled]

/-! ## What is read -/

theorem isSurrogate_shortEscapeValue {e c : CodePoint} (h : shortEscapeValue? e = some c) :
    c.isSurrogate = false := by
  unfold shortEscapeValue? at h
  split_ifs at h with hself
  · obtain rfl := Option.some.inj h
    exact Bool.eq_false_iff.mpr (CodePoint.not_of_isIn hself (by decide))
  all_goals
    obtain rfl := Option.some.inj h
    decide

/-- The characters that spell themselves are no surrogates. -/
def Literal (s : List Spelling) : Prop := ∀ c, .plain c ∈ s → c.isSurrogate = false

theorem Literal.tail {x : Spelling} {s : List Spelling} (h : Literal (x :: s)) : Literal s :=
  fun c hc => h c (List.mem_cons_of_mem x hc)

theorem Literal.cons_escaped {s : List Spelling} (h : Literal s) (c : CodePoint) :
    Literal (.escaped c :: s) := by
  intro d hd
  simp only [List.mem_cons, reduceCtorEq, false_or] at hd
  exact h d hd

theorem Literal.cons_plain {s : List Spelling} (h : Literal s) {c : CodePoint}
    (hc : c.isSurrogate = false) : Literal (.plain c :: s) := by
  intro d hd
  simp only [List.mem_cons, Spelling.plain.injEq] at hd
  rcases hd with rfl | hd
  · exact hc
  · exact h d hd

theorem readSpellings_suffix {t rest : Text} {s : List Spelling}
    (hread : readSpellings t = some (s, rest)) : rest <:+ t := by
  fun_induction readSpellings t generalizing s rest with
  | case1 | case3 | case4 | case6 | case7 | case9 => simp at hread
  | case2 r =>
    simp only [Option.some.injEq, Prod.mk.injEq] at hread
    obtain ⟨-, rfl⟩ := hread
    exact List.suffix_cons _ r
  | case5 h1 h2 h3 h4 r x hquad hne ih =>
    obtain ⟨p, hp, heq⟩ := Option.map_eq_some_iff.mp hread
    obtain ⟨-, rfl⟩ := Prod.mk.inj heq
    exact (ih hp).trans (List.suffix_append [_, _, h1, h2, h3, h4] r)
  | case8 e r he x hx hne ih =>
    obtain ⟨p, hp, heq⟩ := Option.map_eq_some_iff.mp hread
    obtain ⟨-, rfl⟩ := Prod.mk.inj heq
    exact (ih hp).trans (List.suffix_append [_, e] r)
  | case10 c r hquote hslash hc ih =>
    obtain ⟨p, hp, heq⟩ := Option.map_eq_some_iff.mp hread
    obtain ⟨-, rfl⟩ := Prod.mk.inj heq
    exact (ih hp).trans (List.suffix_cons c r)

/-- What is read out of characters other than surrogates. -/
theorem readSpellings_literal {t : Text} (h : t.isEncodable) {s : List Spelling} {rest : Text}
    (hread : readSpellings t = some (s, rest)) : Literal s := by
  fun_induction readSpellings t generalizing s rest with
  | case1 | case3 | case4 | case6 | case7 | case9 => simp at hread
  | case2 r =>
    simp only [Option.some.injEq, Prod.mk.injEq] at hread
    obtain ⟨rfl, -⟩ := hread
    exact fun c hc => absurd hc List.not_mem_nil
  | case5 h1 h2 h3 h4 r x hquad hne ih =>
    obtain ⟨p, hp, heq⟩ := Option.map_eq_some_iff.mp hread
    obtain ⟨rfl, -⟩ := Prod.mk.inj heq
    simp only [Text.isEncodable_cons] at h
    exact (ih h.2.2.2.2.2.2 hp).cons_escaped x
  | case8 e r he x hx hne ih =>
    obtain ⟨p, hp, heq⟩ := Option.map_eq_some_iff.mp hread
    obtain ⟨rfl, -⟩ := Prod.mk.inj heq
    simp only [Text.isEncodable_cons] at h
    exact (ih h.2.2 hp).cons_plain (isSurrogate_shortEscapeValue hx)
  | case10 c r hquote hslash hc ih =>
    obtain ⟨p, hp, heq⟩ := Option.map_eq_some_iff.mp hread
    obtain ⟨rfl, -⟩ := Prod.mk.inj heq
    rw [Text.isEncodable_cons] at h
    exact (ih h.2 hp).cons_plain h.1

/-- Only an escaped character can start what is read with a low surrogate. -/
theorem head_joinSpellings {s : List Spelling} (h : Literal s) {d : CodePoint}
    (hhead : (joinSpellings s).head? = some d) (hd : d.isLowSurrogate) :
    s.head? = some (.escaped d) := by
  match s with
  | [] => exact absurd hhead (by simp [joinSpellings])
  | .plain c :: r =>
    obtain rfl : c = d := by simpa [joinSpellings] using hhead
    have hc := h c List.mem_cons_self
    rw [CodePoint.isSurrogate_of_isLowSurrogate hd] at hc
    exact absurd hc (by decide)
  | [.escaped c] => simpa [joinSpellings] using hhead
  | .escaped c :: .plain e :: r => simpa [joinSpellings] using hhead
  | .escaped high :: .escaped low :: r =>
    rw [joinSpellings] at hhead
    split_ifs at hhead with hpair
    · rw [Bool.and_eq_true] at hpair
      have hjoin := CodePoint.le_join hpair.1 hpair.2
      obtain rfl := Option.some.inj hhead
      simp only [CodePoint.isLowSurrogate, Bool.and_eq_true, decide_eq_true_eq] at hd
      omega
    · exact congrArg _ (congrArg _ (Option.some.inj hhead))

theorem joinSpellings_unpaired {s : List Spelling} (h : Literal s) : (joinSpellings s).Unpaired := by
  -- What stands behind a high surrogate is no low one, for they would have been joined.
  have hnext : ∀ {c : CodePoint} {s : List Spelling}, Literal s →
      (∀ d, s.head? = some (.escaped d) → ¬(c.isHighSurrogate ∧ d.isLowSurrogate)) →
      (joinSpellings s).Unpaired → Text.Unpaired (c :: joinSpellings s) := by
    intro c s hs hhead hrest
    refine Text.unpaired_cons.mpr ⟨fun d hd hpair => ?_, hrest⟩
    exact hhead d (head_joinSpellings hs hd hpair.2) hpair
  fun_induction joinSpellings s with
  | case1 => exact Text.unpaired_nil
  | case2 c r ih =>
    have hc := h c List.mem_cons_self
    exact Text.unpaired_append_cons hc Text.unpaired_nil (ih h.tail)
  | case3 high low r hpair ih =>
    rw [Bool.and_eq_true] at hpair
    have hjoin := CodePoint.le_join hpair.1 hpair.2
    have hsurrogate : (CodePoint.join high low).isSurrogate = false := by
      rw [← Bool.not_eq_true]
      simp only [CodePoint.isSurrogate, Bool.and_eq_true, decide_eq_true_eq]
      omega
    exact Text.unpaired_append_cons hsurrogate Text.unpaired_nil (ih h.tail.tail)
  | case4 high low r hpair ih =>
    refine hnext h.tail (fun d hd => ?_) (ih h.tail)
    obtain rfl : low = d := by simpa using hd
    simpa using hpair
  | case5 c r hr ih =>
    refine hnext h.tail (fun d hd => ?_) (ih h.tail)
    cases r with
    | nil => simp at hd
    | cons x r =>
      obtain rfl := Option.some.inj hd
      exact absurd rfl (hr d r)

theorem readText_eq_ok {t s rest : Text} (hread : readText t = .ok (s, rest)) :
    ∃ spelled, readSpellings t = some (spelled, rest) ∧ s = joinSpellings spelled := by
  unfold readText at hread
  split at hread
  · simp at hread
  · next spelled r hspelled =>
    obtain ⟨rfl, rfl⟩ := Prod.mk.inj (Except.ok.inj hread)
    exact ⟨spelled, hspelled, rfl⟩

theorem readText_suffix {t s rest : Text} (hread : readText t = .ok (s, rest)) : rest <:+ t := by
  obtain ⟨_, hspelled, -⟩ := readText_eq_ok hread
  exact readSpellings_suffix hspelled

/-- A text that is read has no pairs of surrogates. -/
theorem readText_unpaired {t : Text} (h : t.isEncodable) {s rest : Text}
    (hread : readText t = .ok (s, rest)) : s.Unpaired := by
  obtain ⟨spelled, hspelled, rfl⟩ := readText_eq_ok hread
  exact joinSpellings_unpaired (readSpellings_literal h hspelled)

end Findings.Json
