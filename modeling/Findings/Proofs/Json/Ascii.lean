import Findings.Proofs.Json.RoundTrip

/-!
# What is written is ASCII

A character that is not printable ASCII is written as an escape, a surrogate too, and so are the line ends
inside texts. So a text and a number are written in printable ASCII (`all_writeText`, `all_ofInt`,
`all_written`), and the indented layout of any value has nothing but that and line ends of its own
(`all_writeIndented`); it can be written in UTF-8 whatever the texts of the value hold
(`isEncodable_writeIndented`).
-/

namespace Findings

/-- Induction over a value: over the items of a list and the values of the fields of an object. -/
theorem Value.induction {P : Value → Prop} (null : P .null) (bool : ∀ b, P (.bool b))
    (int : ∀ n, P (.int n)) (float : ∀ x, P (.float x)) (text : ∀ t, P (.text t))
    (category : ∀ c, P (.category c)) (list : ∀ items, (∀ v ∈ items, P v) → P (.list items))
    (object : ∀ fields, (∀ f ∈ fields, P f.2) → P (.object fields)) (v : Value) : P v := by
  refine Value.rec (motive_1 := P) (motive_2 := fun items => ∀ v ∈ items, P v)
    (motive_3 := fun fields => ∀ f ∈ fields, P f.2) (motive_4 := fun f => P f.2) null bool int float text
    list object category ?_ ?_ ?_ ?_ ?_ v
  · exact fun v hv => absurd hv List.not_mem_nil
  · exact fun v vs hv hvs => List.forall_mem_cons.mpr ⟨hv, hvs⟩
  · exact fun f hf => absurd hf List.not_mem_nil
  · exact fun f fs hf hfs => List.forall_mem_cons.mpr ⟨hf, hfs⟩
  · exact fun _ _ h => h

namespace Json

/-! ## Texts -/

theorem isPrintableAscii_hexDigit : ∀ n < 16, isPrintableAscii (hexDigit n) := by decide

theorem all_unicodeEscape {n : Nat} (h : n < 0x10000) : (unicodeEscape n).all isPrintableAscii := by
  have hdigits : ∀ m, isPrintableAscii (hexDigit (m % 16)) := fun m =>
    isPrintableAscii_hexDigit _ (Nat.mod_lt _ (by decide))
  have hfirst := isPrintableAscii_hexDigit (n / 4096) (by omega)
  rw [unicodeEscape, hex_eq h, List.all_append, Bool.and_eq_true]
  refine ⟨by decide, ?_⟩
  simp [hdigits, hfirst]

theorem all_numericEscape (c : CodePoint) : (numericEscape c).all isPrintableAscii := by
  unfold numericEscape
  split_ifs with h
  · exact all_unicodeEscape (by omega)
  · have hhigh := CodePoint.highHalf_val (Nat.lt_of_not_le h)
    have hlow := CodePoint.lowHalf_val c
    have := c.isLt
    rw [List.all_append, Bool.and_eq_true]
    exact ⟨all_unicodeEscape (by omega), all_unicodeEscape (by omega)⟩

theorem all_shortEscape? {c : CodePoint} {t : Text} (h : shortEscape? c = some t) :
    t.all isPrintableAscii := by
  unfold shortEscape? at h
  split_ifs at h
  all_goals
    obtain rfl := Option.some.inj h
    decide

theorem all_writeText (t : Text) : (writeText isPrintableAscii t).all isPrintableAscii := by
  have hchars : (t.flatMap (writeChar isPrintableAscii)).all isPrintableAscii := by
    rw [List.all_flatMap, List.all_eq_true]
    intro c _
    unfold writeChar
    split
    · next e he => exact all_shortEscape? he
    · split_ifs with hplain
      · simpa using hplain
      · exact all_numericEscape c
  rw [writeText, List.all_append, List.all_append, hchars]
  rfl

/-! ## Numbers -/

theorem isPrintableAscii_of_isAsciiDigit {c : CodePoint} (h : c.isAsciiDigit) : isPrintableAscii c := by
  simp only [CodePoint.isAsciiDigit, isPrintableAscii, Bool.and_eq_true, decide_eq_true_eq] at h ⊢
  omega

theorem all_ofNat (n : Nat) : (Text.ofNat n).all isPrintableAscii :=
  List.all_eq_true.mpr fun _ hc => isPrintableAscii_of_isAsciiDigit (Text.mem_ofNat hc)

theorem all_ofInt (n : Int) : (Text.ofInt n).all isPrintableAscii := by
  refine List.all_eq_true.mpr fun c hc => ?_
  rcases Text.mem_ofInt hc with rfl | hdigit
  · decide
  · exact isPrintableAscii_of_isAsciiDigit hdigit

theorem all_zeros (n : Nat) : (zeros n).all isPrintableAscii := by
  have hzero : isPrintableAscii (.ofChar '0') := by decide
  simp [zeros, hzero]

theorem all_exponentText (k : Int) : (exponentText "e" k).all isPrintableAscii := by
  have hmark : (Text.ofString "e").all isPrintableAscii := by decide
  have hsign : (Text.ofString (if k < 0 then "-" else "+")).all isPrintableAscii := by
    split_ifs <;> decide
  have hpad : (Text.padLeft 2 '0' (Text.ofNat k.natAbs)).all isPrintableAscii := by
    rw [Text.padLeft, List.all_append, all_ofNat, Bool.and_true]
    exact all_zeros _
  simp only [exponentText, List.all_append, hmark, hsign, hpad, Bool.and_self]

section Digits

variable {ds : Text} (h : ds.all isPrintableAscii)
include h

theorem all_positional (point : Int) : (positional ds point).all isPrintableAscii := by
  have hpoint : (Text.ofString ".").all isPrintableAscii := by decide
  have htake : ∀ n, (ds.take n).all isPrintableAscii := fun n =>
    Text.all_of_subset (List.take_subset n ds) h
  have hdrop : ∀ n, (ds.drop n).all isPrintableAscii := fun n =>
    Text.all_of_subset (List.drop_subset n ds) h
  have hbefore : (Text.ofString "0.").all isPrintableAscii := by decide
  have hbehind : (Text.ofString ".0").all isPrintableAscii := by decide
  simp only [positional]
  split_ifs
  · simp only [List.all_append, hbefore, all_zeros, h, Bool.and_self]
  · simp only [List.all_append, hbehind, all_zeros, h, Bool.and_self]
  · simp only [List.all_append, htake, hdrop, hpoint, Bool.and_self]

theorem all_scientific (point : Int) : (scientific ds point).all isPrintableAscii := by
  have hpoint : (Text.ofString ".").all isPrintableAscii := by decide
  have htake := Text.all_of_subset (List.take_subset 1 ds) h
  have hdrop := Text.all_of_subset (List.drop_subset 1 ds) h
  simp only [scientific, List.all_append, htake, all_exponentText, Bool.and_true, Bool.true_and]
  split_ifs
  · rfl
  · simp only [List.all_append, hpoint, hdrop, Bool.and_self]

end Digits

theorem all_stripZeros (d : Decimal) : d.stripZeros.1.all isPrintableAscii := by
  refine Text.all_of_subset (fun c hc => ?_) (all_ofNat d.coefficient)
  exact List.mem_reverse.mp ((List.dropWhile_suffix _).subset (List.mem_reverse.mp hc))

theorem all_written (x : Binary64) : x.written.all isPrintableAscii := by
  cases x with
  | nan => decide
  | infinite negative => cases negative <;> decide
  | finite negative m e =>
    have hsign : (if negative then "-" else "" : Text).all isPrintableAscii := by
      cases negative <;> decide
    have hzero : (Text.ofString "0.0").all isPrintableAscii := by decide
    have hdigits := all_stripZeros (Binary64.shortest m e)
    by_cases hm : m = 0
    · simp only [Binary64.written, hm, ↓reduceIte, List.all_append, hsign, hzero, Bool.and_self]
    · simp only [Binary64.written, hm, ↓reduceIte, List.all_append, hsign, Bool.true_and]
      split_ifs
      · exact all_positional hdigits _
      · exact all_scientific hdigits _

theorem all_writeFloat (x : Binary64) : (writeFloat x).all isPrintableAscii := by
  cases x with
  | nan => decide
  | infinite negative => cases negative <;> decide
  | finite negative m e => exact all_written (.finite negative m e)

/-! ## The indented layout -/

/-- Printable ASCII, or a line end. -/
def isPrinted (c : CodePoint) : Bool := isPrintableAscii c || c = .ofChar '\n'

theorem all_isPrinted {t : Text} (h : t.all isPrintableAscii) : t.all isPrinted :=
  List.all_eq_true.mpr fun c hc => by simp [isPrinted, List.all_eq_true.mp h c hc]

theorem all_newline (level : Nat) : (newline level).all isPrinted := by
  have hspace : isPrinted (.ofChar ' ') := by decide
  have hnewline : isPrinted (.ofChar '\n') := by decide
  simp [newline, hspace, hnewline]

theorem all_block {level : Nat} {opening closing : Text} {parts : List Text}
    (hopening : opening.all isPrinted) (hclosing : closing.all isPrinted)
    (h : ∀ t ∈ parts, t.all isPrinted) : (block level opening closing parts).all isPrinted := by
  have hcomma : ("," ++ newline (level + 1) : Text).all isPrinted := by
    rw [List.all_append, all_newline]
    rfl
  unfold block
  split_ifs
  · rw [List.all_append, hopening, hclosing]
    rfl
  · simp only [List.all_append, all_newline, hopening, hclosing, Text.all_join hcomma h, Bool.and_self]

/-- The indented layout has nothing but printable ASCII and line ends. -/
theorem all_writeIndented (v : Value) (level : Nat) : (writeIndented level v).all isPrinted := by
  induction v using Value.induction generalizing level with
  | null => rfl
  | bool b => cases b <;> rfl
  | int n => exact all_isPrinted (all_ofInt n)
  | float x => exact all_isPrinted (all_writeFloat x)
  | text t => exact all_isPrinted (all_writeText t)
  | category c => exact all_isPrinted (all_writeText _)
  | list items ih =>
    rw [writeIndented, writeIndentedItems_eq]
    refine all_block (by decide) (by decide) fun t ht => ?_
    obtain ⟨v, hv, rfl⟩ := List.mem_map.mp ht
    exact ih v hv _
  | object fields ih =>
    rw [writeIndented, writeIndentedFields_eq]
    refine all_block (by decide) (by decide) fun t ht => ?_
    obtain ⟨f, hf, rfl⟩ := List.mem_map.mp ht
    have hcolon : (.ofChar ':' :: Text.ofString " " : Text).all isPrinted := by decide
    have hkey := all_isPrinted (all_writeText f.1)
    simp only [writeField, List.all_append, hkey, hcolon, ih f hf (level + 1), Bool.and_self]

theorem val_lt_of_isPrinted {c : CodePoint} (h : isPrinted c) : c.val < 0x80 := by
  rcases (Bool.or_eq_true _ _).mp h with h | h
  · simp only [isPrintableAscii, Bool.and_eq_true, decide_eq_true_eq] at h
    omega
  · rw [of_decide_eq_true h]
    decide

theorem val_pos_of_isPrinted {c : CodePoint} (h : isPrinted c) : 0 < c.val := by
  rcases (Bool.or_eq_true _ _).mp h with h | h
  · simp only [isPrintableAscii, Bool.and_eq_true, decide_eq_true_eq] at h
    omega
  · rw [of_decide_eq_true h]
    decide

theorem isEncodable_of_isPrinted {t : Text} (h : t.all isPrinted) : t.isEncodable := by
  refine List.all_eq_true.mpr fun c hc => ?_
  have hc := val_lt_of_isPrinted (List.all_eq_true.mp h c hc)
  rw [CodePoint.isSurrogate, Bool.not_eq_true', Bool.and_eq_false_iff, decide_eq_false_iff_not]
  omega

theorem isEncodable_writeIndented (v : Value) (level : Nat) : (writeIndented level v).isEncodable :=
  isEncodable_of_isPrinted (all_writeIndented v level)

end Json
end Findings
