import Findings.Proofs.Json.Ascii

/-!
# Lines of text

Quoted text is printable whatever it quotes (`all_quoted`), and no printable character ends a line. So quoted text
stays on its line, and lines that are printable are told apart by the newlines behind them (`lines_flatMap`).
-/

namespace Findings

namespace CodePoint

/-- Printable characters are told by the gaps between the ranges of those that are not. -/
theorem isPrintable_of_isPrintableAscii {c : CodePoint} (h : Json.isPrintableAscii c) : c.isPrintable := by
  have hgap : ∀ range ∈ unprintableRanges, range.2 < 0x20 ∨ 0x7E < range.1 := by decide +kernel
  rw [Json.isPrintableAscii, Bool.and_eq_true, decide_eq_true_eq, decide_eq_true_eq] at h
  rw [isPrintable, Bool.not_eq_true', List.any_eq_false]
  intro range hrange
  have hapart := hgap range hrange
  simp only [Bool.and_eq_true, decide_eq_true_eq]
  omega

theorem not_isPrintable {c : CodePoint} {first last : Nat} (hrange : (first, last) ∈ unprintableRanges)
    (hfirst : first ≤ c.val) (hlast : c.val ≤ last) : ¬c.isPrintable := by
  rw [isPrintable, Bool.not_eq_true', Bool.not_eq_false, List.any_eq_true]
  exact ⟨(first, last), hrange, by simp [hfirst, hlast]⟩

/-- Whether a line ends with `c`, for whoever splits a text at all line ends of Unicode. -/
def endsLine (c : CodePoint) : Bool :=
  (0x0A ≤ c.val && c.val ≤ 0x0D) || (0x1C ≤ c.val && c.val ≤ 0x1E) ||
  c.val = 0x85 || c.val = 0x2028 || c.val = 0x2029

theorem not_endsLine_of_isPrintable {c : CodePoint} (h : c.isPrintable) : ¬c.endsLine := by
  have hcontrols : ¬(0 ≤ c.val ∧ c.val ≤ 0x1F) := fun hc => not_isPrintable (by decide) hc.1 hc.2 h
  have hmore : ¬(0x7F ≤ c.val ∧ c.val ≤ 0xA0) := fun hc => not_isPrintable (by decide) hc.1 hc.2 h
  have hseparators : ¬(0x2028 ≤ c.val ∧ c.val ≤ 0x202F) := fun hc =>
    not_isPrintable (by decide +kernel) hc.1 hc.2 h
  simp only [endsLine, Bool.or_eq_true, Bool.and_eq_true, decide_eq_true_eq]
  omega

end CodePoint

namespace Text

/-! ## Quoted text -/

theorem all_isPrintable {t : Text} (h : t.all Json.isPrintableAscii) : t.all CodePoint.isPrintable :=
  List.all_eq_true.mpr fun c hc => CodePoint.isPrintable_of_isPrintableAscii (List.all_eq_true.mp h c hc)

theorem all_hex {width : Nat} (hwidth : 0 < width) {n : Nat} (h : n < 16 ^ width) :
    (hex width n).all Json.isPrintableAscii := by
  induction width, hwidth using Nat.le_induction generalizing n with
  | base =>
    rw [Json.hex_one h, List.all_cons, Json.isPrintableAscii_hexDigit n h]
    rfl
  | succ width hwidth ih =>
    have hdiv : n / 16 < 16 ^ width := Nat.div_lt_of_lt_mul (by rwa [pow_succ'] at h)
    rw [Json.hex_succ hwidth, List.all_append, ih hdiv, List.all_cons,
      Json.isPrintableAscii_hexDigit _ (Nat.mod_lt n (by decide))]
    rfl

theorem all_numericEscape (c : CodePoint) : (numericEscape c).all Json.isPrintableAscii := by
  have hmarks : ∀ mark ∈ ["\\x", "\\u", "\\U"], (ofString mark).all Json.isPrintableAscii := by decide
  have hlt := c.isLt
  unfold numericEscape
  split_ifs with hbyte hplane
  · rw [List.all_append, hmarks "\\x" (by decide), all_hex (by decide) (by omega)]
    rfl
  · rw [List.all_append, hmarks "\\u" (by decide), all_hex (by decide) (by omega)]
    rfl
  · rw [List.all_append, hmarks "\\U" (by decide), all_hex (by decide) (by omega)]
    rfl

theorem all_quoteChar {mark : CodePoint} (hmark : mark.isPrintable) (c : CodePoint) :
    (quoteChar CodePoint.isPrintable mark c).all CodePoint.isPrintable := by
  have hbackslash : (CodePoint.ofChar '\\').isPrintable :=
    CodePoint.isPrintable_of_isPrintableAscii (by decide)
  unfold quoteChar
  split_ifs with hescaped _ _ _ hplain
  · have hc : c.isPrintable := by
      rcases (Bool.or_eq_true _ _).mp hescaped with hc | hc
      · exact of_decide_eq_true hc ▸ hmark
      · exact of_decide_eq_true hc ▸ hbackslash
    simp [hbackslash, hc]
  · exact all_isPrintable (by decide)
  · exact all_isPrintable (by decide)
  · exact all_isPrintable (by decide)
  · simpa using hplain
  · exact all_isPrintable (all_numericEscape c)

/-- Quoted text is printable, whatever was quoted. -/
theorem all_quoted (t : Text) : t.quoted.all CodePoint.isPrintable := by
  have hmark : (quoteMark t).isPrintable := by
    unfold quoteMark
    split_ifs <;> exact CodePoint.isPrintable_of_isPrintableAscii (by decide)
  simp only [quoted, quoteWith, List.cons_append, List.all_cons, List.all_append, List.all_flatMap,
    List.all_nil, hmark, Bool.true_and, Bool.and_true]
  exact List.all_eq_true.mpr fun c _ => all_quoteChar hmark c

/-! ## Lines -/

/-- The lines of a text, without what ends them. Carriage return and newline together are one end; the last line
may lack it. -/
def lines : Text → List Text
  | [] => []
  | [c] => if c.endsLine then [[]] else [[c]]
  | c :: d :: r =>
    if c = .ofChar '\r' && d = .ofChar '\n' then [] :: lines r
    else if c.endsLine then [] :: lines (d :: r)
    else match lines (d :: r) with
      | [] => [[c]]
      | l :: ls => (c :: l) :: ls

theorem lines_newline (rest : Text) : lines (.ofChar '\n' :: rest) = [] :: lines rest := by
  cases rest with
  | nil => rfl
  | cons d r =>
    have hnewline : CodePoint.ofChar '\n' ≠ .ofChar '\r' := by decide
    have hends : (CodePoint.ofChar '\n').endsLine := by decide
    simp [lines, hnewline, hends]

theorem lines_append_newline {l : Text} (h : ∀ c ∈ l, ¬c.endsLine) (rest : Text) :
    lines (l ++ .ofChar '\n' :: rest) = l :: lines rest := by
  induction l with
  | nil => exact lines_newline rest
  | cons c l ih =>
    rw [List.forall_mem_cons] at h
    have hreturn : c ≠ .ofChar '\r' := by
      rintro rfl
      exact h.1 (by decide)
    obtain ⟨d, r, hr⟩ := List.exists_cons_of_ne_nil
      (List.append_ne_nil_of_right_ne_nil l (List.cons_ne_nil (CodePoint.ofChar '\n') rest))
    have hrest := ih h.2
    rw [hr] at hrest
    rw [List.cons_append, hr]
    simp [lines, hreturn, h.1, hrest]

/-- Lines that each end with a newline are told apart again if nothing in them ends a line. -/
theorem lines_flatMap {ls : List Text} (h : ∀ l ∈ ls, l.all CodePoint.isPrintable) :
    lines (ls.flatMap (· ++ [.ofChar '\n'])) = ls := by
  induction ls with
  | nil => rfl
  | cons l ls ih =>
    rw [List.forall_mem_cons] at h
    have hl : ∀ c ∈ l, ¬c.endsLine := fun c hc =>
      CodePoint.not_endsLine_of_isPrintable (List.all_eq_true.mp h.1 c hc)
    rw [List.flatMap_cons, List.append_assoc, List.singleton_append, lines_append_newline hl, ih h.2]

end Text
end Findings
