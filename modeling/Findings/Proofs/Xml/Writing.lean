import Findings.Proofs.Text.Characters
import Findings.Proofs.Text.Split
import Findings.Proofs.Xml.Reading
import Findings.Report.Escape
import Mathlib.Tactic.SplitIfs

/-!
# Reading what was written as XML

Values, tags and runs of tags come back as they were written, but for the characters that XML cannot hold.
-/

namespace Findings.Xml

open Report

/-! ## Characters -/

theorem isXmlChar_eq (c : CodePoint) : isXmlChar c = isChar c := by
  have h := c.isLt
  rw [Bool.eq_iff_iff]
  simp [isXmlChar, isChar, charRanges]
  omega

/-- The characters of an escaped value: those of XML, without markup and line ends. -/
def isPlain (c : CodePoint) : Bool := isChar c && !c.isIn "<>\"'\t\n\r"

theorem isPlain_of_mem_xmlChar {c d : CodePoint} (hd : isChar d) (h : c ∈ xmlChar d) : isPlain c := by
  have hliteral : ∀ t : Text, t.all isPlain → c ∈ t → isPlain c := fun t ht hc =>
    List.all_eq_true.mp ht c hc
  unfold xmlChar at h
  split_ifs at h with hamp hgt hlt hquot hapos hnewline hreturn htab
  · exact hliteral _ (by decide) h
  · exact hliteral _ (by decide) h
  · exact hliteral _ (by decide) h
  · exact hliteral _ (by decide) h
  · exact hliteral _ (by decide) h
  · exact hliteral _ (by decide) h
  · exact hliteral _ (by decide) h
  · exact hliteral _ (by decide) h
  · obtain rfl := List.mem_singleton.mp h
    simp [isPlain, CodePoint.isIn, eq_comm, *]

theorem isPlain_of_mem_xmlAttribute {c : CodePoint} {t : Text} (h : c ∈ xmlAttribute t) :
    isPlain c := by
  obtain ⟨d, hd, hc⟩ := List.mem_flatMap.mp h
  have hchar := (List.mem_filter.mp hd).2
  rw [isXmlChar_eq] at hchar
  exact isPlain_of_mem_xmlChar hchar hc

/-! ## Values -/

theorem readValue_cons {c : CodePoint} (hamp : c ≠ .ofChar '&') (hlt : c ≠ .ofChar '<')
    (rest : Text) :
    readValue (c :: rest) =
      (readValue rest).map ((if isSpace c then .ofChar ' ' else c) :: ·) := by
  rw [readValue, expand.eq_def]
  simp only [hamp, hlt, ↓reduceIte]
  rfl

/-- White space is written as a reference, but for the space, so no character is changed. -/
theorem readValue_xmlChar (c : CodePoint) (rest : Text) :
    readValue (xmlChar c ++ rest) = (readValue rest).map (c :: ·) := by
  unfold xmlChar
  split_ifs with hamp hgt hlt hquot hapos hnewline hreturn htab
  · rw [hamp]; rfl
  · rw [hgt]; rfl
  · rw [hlt]; rfl
  · rw [hquot]; rfl
  · rw [hapos]; rfl
  · rw [hnewline]; rfl
  · rw [hreturn]; rfl
  · rw [htab]; rfl
  · have hspace : (if isSpace c then .ofChar ' ' else c) = c := by
      by_cases h : c = .ofChar ' '
      · subst h; rfl
      · simp [isSpace, CodePoint.isIn, eq_comm, *]
    rw [List.singleton_append, readValue_cons hamp hlt, hspace]

theorem readValue_xmlAttribute (t : Text) : readValue (xmlAttribute t) = some (t.filter isChar) := by
  have hescape : ∀ t : Text, readValue (t.flatMap xmlChar) = some t := by
    intro t
    induction t with
    | nil => rfl
    | cons c t ih => rw [List.flatMap_cons, readValue_xmlChar, ih, Option.map_some]
  rw [xmlAttribute, hescape, funext isXmlChar_eq]

/-! ## Tags -/

/-- An attribute as it is written, with a blank in front. -/
def attributeText (a : Text × Text) : Text :=
  .ofChar ' ' :: (a.1 ++ .ofChar '=' :: .ofChar '"' :: (xmlAttribute a.2 ++ [.ofChar '"']))

theorem isNameChar_of_mem {name : Text} (h : isName name) : ∀ c ∈ name, isNameChar c := by
  cases name with
  | nil => exact fun c hc => absurd hc List.not_mem_nil
  | cons d r =>
    simp only [isName, Bool.and_eq_true, List.all_eq_true] at h
    intro c hc
    rcases List.mem_cons.mp hc with rfl | hc
    · simp [isNameChar, h.1]
    · exact h.2 c hc

theorem readName_append {name rest : Text} (h : isName name)
    (hrest : ∀ c ∈ rest.head?, ¬isNameChar c) : readName (name ++ rest) = some (name, rest) := by
  have hname := isNameChar_of_mem h
  rw [readName, Text.takeWhile_append_stop hname hrest, Text.dropWhile_append_stop hname hrest,
    if_pos h]

theorem readQuoted_append (v rest : Text) :
    readQuoted (.ofChar '"' :: (xmlAttribute v ++ .ofChar '"' :: rest)) =
      some (v.filter isChar, rest) := by
  have hv : ∀ c ∈ xmlAttribute v, decide (c ≠ .ofChar '"') = true := by
    intro c hc
    rw [decide_eq_true_eq]
    rintro rfl
    exact absurd (isPlain_of_mem_xmlAttribute hc) (by decide)
  have hrest : ∀ c ∈ (CodePoint.ofChar '"' :: rest).head?, ¬decide (c ≠ .ofChar '"') = true := by
    simp
  have hmark : (CodePoint.ofChar '"').isIn "\"'" = true := by decide
  have hspace : ∀ r, (CodePoint.ofChar '"' :: r).dropWhile isSpace = .ofChar '"' :: r := fun _ => rfl
  simp only [readQuoted, hspace, hmark, ↓reduceIte, Text.dropWhile_append_stop hv hrest,
    Text.takeWhile_append_stop hv hrest, readValue_xmlAttribute, Option.map_some]

/-- An attribute without the blank in front, with what follows it. -/
def attributeThen (a : Text × Text) (rest : Text) : Text :=
  a.1 ++ .ofChar '=' :: .ofChar '"' :: (xmlAttribute a.2 ++ .ofChar '"' :: rest)

theorem attributeText_append (a : Text × Text) (rest : Text) :
    attributeText a ++ rest = .ofChar ' ' :: attributeThen a rest := by
  simp [attributeText, attributeThen]

/-- What is read of an attribute. -/
def clean (a : Text × Text) : Text × Text := (a.1, a.2.filter isChar)

theorem readAttribute_append {a : Text × Text} (h : isName a.1) (rest : Text) :
    readAttribute (attributeThen a rest) = some (clean a, rest) := by
  have hstop : ∀ c ∈ (CodePoint.ofChar '=' :: .ofChar '"' ::
      (xmlAttribute a.2 ++ .ofChar '"' :: rest)).head?, ¬isNameChar c := by
    intro c hc
    obtain rfl := Option.some.inj hc
    decide
  have hskip : ∀ r, skip (.ofChar '=') (.ofChar '=' :: r) = some r := fun _ => rfl
  simp [readAttribute, attributeThen, readName_append h hstop, hskip, readQuoted_append, clean]

theorem not_isSpace_of_isNameStart {c : CodePoint} (h : isNameStart c) :
    isSpace c = false ∧ c.isIn ">/?" = false :=
  ⟨Bool.eq_false_iff.mpr (CodePoint.not_isIn h (by decide)),
    Bool.eq_false_iff.mpr (CodePoint.not_isIn h (by decide))⟩

theorem readAttributes_mark {mark : CodePoint} (hmark : mark.isIn ">/?") (rest : Text) (n : Nat) :
    readAttributes (n + 1) (mark :: rest) = some ([], mark :: rest) := by
  have hcases : mark ∈ [CodePoint.ofChar '>', .ofChar '/', .ofChar '?'] := CodePoint.isIn_iff.mp hmark
  simp only [List.mem_cons, List.not_mem_nil, or_false] at hcases
  rcases hcases with rfl | rfl | rfl <;> rfl

theorem readAttributes_cons {a : Text × Text} (h : isName a.1) (rest : Text) (n : Nat) :
    readAttributes (n + 1) (attributeText a ++ rest) =
      (readAttributes n rest).map fun p => (clean a :: p.1, p.2) := by
  rw [attributeText_append]
  have hread := readAttribute_append h rest
  have hshape : ∃ c r, isNameStart c ∧ attributeThen a rest = c :: r := by
    unfold attributeThen
    cases hname : a.1 with
    | nil => simp [hname, isName] at h
    | cons c r =>
      rw [hname, isName, Bool.and_eq_true] at h
      exact ⟨c, _, h.1, rfl⟩
  obtain ⟨c, r, hstart, hthen⟩ := hshape
  obtain ⟨hspace, hmark⟩ := not_isSpace_of_isNameStart hstart
  have hdrop : (CodePoint.ofChar ' ' :: c :: r).dropWhile isSpace = c :: r := by
    have hblank : isSpace (CodePoint.ofChar ' ') = true := by decide
    simp [hblank, hspace]
  rw [hthen] at hread ⊢
  simp only [readAttributes, hdrop, hmark, hread]
  cases hrest : readAttributes n rest <;> simp [hrest]

theorem readAttributes_append {as : List (Text × Text)} (h : ∀ a ∈ as, isName a.1)
    {mark : CodePoint} (hmark : mark.isIn ">/?") (rest : Text) {n : Nat} (hn : as.length < n) :
    readAttributes n (as.flatMap attributeText ++ mark :: rest) =
      some (as.map clean, mark :: rest) := by
  induction as generalizing n with
  | nil =>
    cases n with
    | zero => exact absurd hn (Nat.not_lt_zero _)
    | succ n => exact readAttributes_mark hmark rest n
  | cons a as ih =>
    cases n with
    | zero => exact absurd hn (Nat.not_lt_zero _)
    | succ n =>
      rw [List.flatMap_cons, List.append_assoc, readAttributes_cons (h a (by simp)),
        ih (fun b hb => h b (List.mem_cons_of_mem a hb)) (Nat.lt_of_succ_lt_succ hn)]
      rfl

theorem length_le_flatMap_attributeText (as : List (Text × Text)) :
    as.length ≤ (as.flatMap attributeText).length := by
  induction as with
  | nil => exact Nat.le_refl 0
  | cons a as ih =>
    rw [List.flatMap_cons, List.length_append, List.length_cons]
    simp only [attributeText, List.length_cons]
    omega

theorem readDistinct_append {as : List (Text × Text)} (h : ∀ a ∈ as, isName a.1)
    (hn : (as.map (·.1)).Nodup) {mark : CodePoint} (hmark : mark.isIn ">/?") (rest : Text) :
    readDistinct (as.flatMap attributeText ++ mark :: rest) = some (as.map clean, mark :: rest) := by
  have hlength : as.length < (as.flatMap attributeText ++ mark :: rest).length := by
    have := length_le_flatMap_attributeText as
    rw [List.length_append, List.length_cons]
    omega
  have hnames : (as.map clean).map (·.1) = as.map (·.1) := by
    simp [clean, Function.comp_def]
  rw [readDistinct, readAttributes_append h hmark rest hlength, Option.filter_some, hnames,
    if_pos (decide_eq_true hn)]

/-! ## Tokens -/

namespace Token

/-- A token as it is written; white space stands for itself. -/
def text : Token → Text
  | data t => t
  | openTag name as => .ofChar '<' :: (name ++ (as.flatMap attributeText ++ [.ofChar '>']))
  | closeTag name => .ofChar '<' :: .ofChar '/' :: (name ++ [.ofChar '>'])
  | emptyTag name as =>
    .ofChar '<' :: (name ++ (as.flatMap attributeText ++ [.ofChar '/', .ofChar '>']))

/-- What is read of a token. -/
def clean : Token → Token
  | openTag name as => openTag name (as.map Xml.clean)
  | emptyTag name as => emptyTag name (as.map Xml.clean)
  | t => t

/-- A tag with a name, and attributes with names of their own. -/
def IsTag : Token → Prop
  | data _ => False
  | openTag name as | emptyTag name as =>
    isName name ∧ (∀ a ∈ as, isName a.1) ∧ (as.map (·.1)).Nodup
  | closeTag name => isName name

end Token

theorem head_attributes {as : List (Text × Text)} {mark : CodePoint} (hmark : mark.isIn ">/?")
    (rest : Text) :
    ∀ c ∈ (as.flatMap attributeText ++ mark :: rest).head?, ¬isNameChar c := by
  intro c hc
  cases as with
  | nil =>
    obtain rfl := Option.some.inj hc
    exact CodePoint.not_of_isIn hmark (by decide)
  | cons a as =>
    obtain rfl := Option.some.inj hc
    decide

theorem readTag_start {name : Text} {as : List (Text × Text)} (h : (Token.openTag name as).IsTag)
    {mark : CodePoint} (hmark : mark.isIn ">/?") (rest : Text) :
    readTag (name ++ (as.flatMap attributeText ++ mark :: rest)) =
      if mark = .ofChar '>' then some (.openTag name (as.map clean), rest)
      else if mark = .ofChar '/' && rest.head? = some (.ofChar '>') then
        some (.emptyTag name (as.map clean), rest.drop 1)
      else none := by
  obtain ⟨hname, has, hn⟩ := h
  have hstop : ∀ c ∈ (as.flatMap attributeText ++ mark :: rest).head?, ¬isNameChar c :=
    head_attributes hmark rest
  have hread := readName_append hname hstop
  have hdistinct := readDistinct_append has hn hmark rest
  cases name with
  | nil => simp [isName] at hname
  | cons c r =>
    have hslash : c ≠ .ofChar '/' := by
      rintro rfl
      simp [isName] at hname
      exact absurd hname.1 (by decide)
    rw [List.cons_append] at hread ⊢
    simp [readTag, hslash, hread, hdistinct]

/-- A tag is read as far as it was written. -/
theorem readTag_text {t : Token} (h : t.IsTag) (rest : Text) :
    ∃ r, t.text ++ rest = .ofChar '<' :: r ∧ readTag r = some (t.clean, rest) := by
  cases t with
  | data t => exact absurd h id
  | openTag name as =>
    refine ⟨name ++ (as.flatMap attributeText ++ .ofChar '>' :: rest), by simp [Token.text], ?_⟩
    rw [readTag_start h (by decide), if_pos rfl]
    rfl
  | emptyTag name as =>
    refine ⟨name ++ (as.flatMap attributeText ++ .ofChar '/' :: .ofChar '>' :: rest),
      by simp [Token.text], ?_⟩
    have hopen : (Token.openTag name as).IsTag := h
    rw [readTag_start hopen (by decide), if_neg (by decide), if_pos (by simp)]
    rfl
  | closeTag name =>
    refine ⟨.ofChar '/' :: (name ++ .ofChar '>' :: rest), by simp [Token.text], ?_⟩
    have hread : readName (name ++ .ofChar '>' :: rest) = some (name, .ofChar '>' :: rest) := by
      refine readName_append h fun c hc => ?_
      obtain rfl := Option.some.inj hc
      decide
    have hskip : skip (.ofChar '>') (.ofChar '>' :: rest) = some rest := rfl
    simp [readTag, hread, hskip, Token.clean]

/-! ## Runs of tags -/

/-- White space and a tag behind it. -/
structure Beat where
  space : Text
  tag : Token

namespace Beat

def text (b : Beat) : Text := b.space ++ b.tag.text

def tokens (b : Beat) : List Token := [.data b.space, b.tag.clean]

structure Valid (b : Beat) : Prop where
  isSpace : ∀ c ∈ b.space, Xml.isSpace c
  ne_nil : b.space ≠ []
  isTag : b.tag.IsTag
  no_return : .ofChar '\r' ∉ b.space

theorem valid_mk {space : Text} {tag : Token}
    (h : (∀ c ∈ space, Xml.isSpace c) ∧ space ≠ [] ∧ .ofChar '\r' ∉ space) (htag : tag.IsTag) :
    (Beat.mk space tag).Valid :=
  ⟨h.1, h.2.1, htag, h.2.2⟩

end Beat

theorem ne_of_isSpace {c : CodePoint} (h : isSpace c) :
    c ≠ .ofChar '&' ∧ c ≠ .ofChar '<' ∧ c ≠ .ofChar ']' := by
  have hall := CodePoint.all_of_isIn h
    (p := fun c => decide (c ≠ .ofChar '&' ∧ c ≠ .ofChar '<' ∧ c ≠ .ofChar ']')) (by decide)
  exact of_decide_eq_true hall

theorem hasSectionEnd_space {t : Text} (h : ∀ c ∈ t, isSpace c) : hasSectionEnd t = false := by
  induction t with
  | nil => rfl
  | cons c t ih =>
    have hc := (ne_of_isSpace (h c (by simp))).2.2
    have hstart : Text.startsWith (c :: t) "]]>" = false := by
      rw [← Bool.not_eq_true]
      intro hstart
      obtain ⟨r, hr⟩ := List.isPrefixOf_iff_prefix.mp hstart
      exact hc (List.cons.inj hr).1.symm
    rw [hasSectionEnd, hstart, ih fun d hd => h d (List.mem_cons_of_mem c hd)]
    rfl

theorem readData_space {t : Text} (h : ∀ c ∈ t, isSpace c) : readData t = some t := by
  rw [readData, hasSectionEnd_space h, if_neg Bool.false_ne_true]
  induction t with
  | nil => rfl
  | cons c t ih =>
    obtain ⟨hamp, hlt, -⟩ := ne_of_isSpace (h c (by simp))
    rw [expand.eq_def]
    simp only [hamp, hlt, ↓reduceIte, ih fun d hd => h d (List.mem_cons_of_mem c hd)]
    rfl

theorem readTokens_space {space : Text} (h : ∀ c ∈ space, isSpace c) (hne : space ≠ []) {rest : Text}
    (hrest : ∀ c ∈ rest.head?, c = .ofChar '<') (n : Nat) :
    readTokens (n + 1) (space ++ rest) = (readTokens n rest).map (.data space :: ·) := by
  have hdata : ∀ c ∈ space, decide (c ≠ .ofChar '<') = true := fun c hc =>
    decide_eq_true (ne_of_isSpace (h c hc)).2.1
  have hstop : ∀ c ∈ rest.head?, ¬decide (c ≠ .ofChar '<') = true := by simpa using hrest
  have htake := Text.takeWhile_append_stop hdata hstop
  have hdrop := Text.dropWhile_append_stop hdata hstop
  cases space with
  | nil => exact absurd rfl hne
  | cons c r =>
    have hc := (ne_of_isSpace (h c (by simp))).2.1
    rw [List.cons_append] at htake hdrop ⊢
    rw [readTokens, if_neg hc, htake, hdrop, readData_space h]
    cases readTokens n rest <;> simp

theorem readTokens_tag {t : Token} (h : t.IsTag) (rest : Text) (n : Nat) :
    readTokens (n + 1) (t.text ++ rest) = (readTokens n rest).map (t.clean :: ·) := by
  obtain ⟨r, htext, hread⟩ := readTag_text h rest
  rw [htext, readTokens, if_pos rfl]
  cases hrest : readTokens n rest <;> simp [hread, hrest]

theorem head_tag {t : Token} (h : t.IsTag) (rest : Text) :
    ∀ c ∈ (t.text ++ rest).head?, c = .ofChar '<' := by
  obtain ⟨r, htext, -⟩ := readTag_text h rest
  simp [htext]

/-- Tags come back in their order, with the white space in front of each and behind the last. -/
theorem readTokens_beats {bs : List Beat} (h : ∀ b ∈ bs, b.Valid) {last : Text}
    (hlast : ∀ c ∈ last, isSpace c) (hne : last ≠ []) {n : Nat} (hn : 2 * bs.length < n) :
    readTokens n (bs.flatMap Beat.text ++ last) = some (bs.flatMap Beat.tokens ++ [.data last]) := by
  induction bs generalizing n with
  | nil =>
    obtain ⟨m, rfl⟩ : ∃ m, n = m + 1 := ⟨n - 1, by omega⟩
    have hread : readTokens (m + 1) (last ++ []) = (readTokens m []).map (.data last :: ·) :=
      readTokens_space hlast hne (by simp) m
    rw [List.append_nil] at hread
    rw [List.flatMap_nil, List.nil_append, hread, readTokens]
    rfl
  | cons b bs ih =>
    rw [List.length_cons] at hn
    obtain ⟨m, rfl⟩ : ∃ m, n = m + 2 := ⟨n - 2, by omega⟩
    have hb := h b (by simp)
    have hbs := ih (fun b' hb' => h b' (List.mem_cons_of_mem b hb')) (n := m) (by omega)
    rw [List.flatMap_cons, Beat.text, List.append_assoc, List.append_assoc,
      readTokens_space hb.isSpace hb.ne_nil (head_tag hb.isTag _), readTokens_tag hb.isTag, hbs]
    rfl

theorem length_le_flatMap_text {bs : List Beat} (h : ∀ b ∈ bs, b.Valid) :
    2 * bs.length ≤ (bs.flatMap Beat.text).length := by
  induction bs with
  | nil => exact Nat.le_refl 0
  | cons b bs ih =>
    have hb := h b (by simp)
    have hspace := List.length_pos_iff.mpr hb.ne_nil
    obtain ⟨r, htext, -⟩ := readTag_text hb.isTag []
    have htag : 0 < b.tag.text.length := by
      rw [List.append_nil] at htext
      simp [htext]
    have hbs := ih fun b' hb' => h b' (List.mem_cons_of_mem b hb')
    simp only [List.flatMap_cons, Beat.text, List.length_append, List.length_cons]
    omega

/-! ## Characters that are written -/

/-- A character of XML that starts no line end of two characters. -/
def isWritten (c : CodePoint) : Bool := isChar c && c ≠ .ofChar '\r'

theorem isWritten_of_isPlain {c : CodePoint} (h : isPlain c) : isWritten c := by
  simp only [isPlain, Bool.and_eq_true, Bool.not_eq_true'] at h
  have hne : c ≠ .ofChar '\r' := by
    rintro rfl
    exact absurd h.2 (by decide)
  simp [isWritten, h.1, hne]

theorem isWritten_of_isNameChar {c : CodePoint} (h : isNameChar c) : isWritten c := by
  have hne : c ≠ .ofChar '\r' := by
    rintro rfl
    exact absurd h (by decide)
  have hchar : isChar c := by
    simp only [isNameChar, isNameStart, Bool.or_eq_true] at h
    rcases h with (((hupper | hlower) | hmark) | hdigit) | hmark
    · simp [isChar, charRanges] at hupper ⊢
      omega
    · simp [isChar, charRanges] at hlower ⊢
      omega
    · exact CodePoint.all_of_isIn hmark (by decide)
    · simp [CodePoint.isAsciiDigit, isChar, charRanges] at hdigit ⊢
      omega
    · exact CodePoint.all_of_isIn hmark (by decide)
  simp [isWritten, hchar, hne]

theorem all_isWritten_attributeText {a : Text × Text} (h : isName a.1) :
    (attributeText a).all isWritten := by
  have hname : a.1.all isWritten :=
    List.all_eq_true.mpr fun c hc => isWritten_of_isNameChar (isNameChar_of_mem h c hc)
  have hvalue : (xmlAttribute a.2).all isWritten :=
    List.all_eq_true.mpr fun c hc => isWritten_of_isPlain (isPlain_of_mem_xmlAttribute hc)
  simp [attributeText, List.all_append, hname, hvalue]
  decide

theorem all_isWritten_text {t : Token} (h : t.IsTag) : t.text.all isWritten := by
  have hname {name : Text} (h : isName name) : name.all isWritten :=
    List.all_eq_true.mpr fun c hc => isWritten_of_isNameChar (isNameChar_of_mem h c hc)
  have hattributes {as : List (Text × Text)} (h : ∀ a ∈ as, isName a.1) :
      (as.flatMap attributeText).all isWritten := by
    rw [List.all_flatMap]
    exact List.all_eq_true.mpr fun a ha => all_isWritten_attributeText (h a ha)
  cases t with
  | data t => exact absurd h id
  | openTag name as =>
    simp [Token.text, List.all_append, hname h.1, hattributes h.2.1]
    decide
  | emptyTag name as =>
    simp [Token.text, List.all_append, hname h.1, hattributes h.2.1]
    decide
  | closeTag name =>
    simp [Token.text, List.all_append, hname h]
    decide

theorem all_isWritten_beats {bs : List Beat} (h : ∀ b ∈ bs, b.Valid) :
    (bs.flatMap Beat.text).all isWritten := by
  rw [List.all_flatMap, List.all_eq_true]
  intro b hb
  have hspace : b.space.all isWritten := by
    rw [List.all_eq_true]
    intro c hc
    have hchar : isChar c := CodePoint.all_of_isIn ((h b hb).isSpace c hc) (by decide)
    have hne : c ≠ .ofChar '\r' := fun heq => (h b hb).no_return (heq ▸ hc)
    simp [isWritten, hchar, hne]
  rw [Beat.text, List.all_append, hspace, all_isWritten_text (h b hb).isTag, Bool.and_self]

theorem ne_return_of_isWritten {c : CodePoint} (h : isWritten c) : c ≠ .ofChar '\r' := by
  rintro rfl
  exact absurd h (by decide)

theorem normalizeLines_eq_self {t : Text} (h : t.all isWritten) : normalizeLines t = t := by
  fun_induction normalizeLines t with
  | case1 => rfl
  | case3 c hc => rfl
  | case6 c d r hc ih =>
    rw [List.all_cons, Bool.and_eq_true] at h
    rw [ih h.2]
  | case2 | case4 | case5 =>
    rw [List.all_cons, Bool.and_eq_true] at h
    exact absurd rfl (ne_return_of_isWritten h.1)

end Findings.Xml
