import Findings.Proofs.Json.Texts
import Findings.Proofs.Lists
import Mathlib.Data.List.TakeDrop

/-!
# What is written as JSON is read again

A value is `Lossless` if its texts have no pairs of surrogates, its integers have no more digits than are
read, its objects have every key once, and it is not nested too deep; numbers with a fraction are left out.
Whatever follows a value that was written, the value is read and what follows is left (`Spells`). This is so
for texts, integers and words, and a list or an object spells its value if its parts do, with any blanks
before, between and behind them (`spells_list`, `spells_object`). So a lossless value comes back from its
indented layout (`read_writeIndented`).
-/

namespace Findings.Json

/-! ## Blanks -/

theorem skipBlanks_append {blanks t : Text} (h : blanks.all isBlank) (ht : ∀ c ∈ t.head?, ¬isBlank c) :
    skipBlanks (blanks ++ t) = t :=
  Text.dropWhile_append_stop (List.all_eq_true.mp h) ht

/-- What may follow a value: a blank, a comma or a closing bracket, or nothing. -/
def Ends (rest : Text) : Prop := ∀ c ∈ rest.head?, c.isIn " \t\n\r,]\x7d"

theorem ends_cons {c : CodePoint} (hc : c.isIn " \t\n\r,]\x7d") (rest : Text) : Ends (c :: rest) := by
  simpa [Ends] using hc

theorem ends_blanks {blanks : Text} (h : blanks.all isBlank) {c : CodePoint}
    (hc : c.isIn " \t\n\r,]\x7d") (rest : Text) : Ends (blanks ++ c :: rest) := by
  cases blanks with
  | nil => exact ends_cons hc rest
  | cons b bs =>
    rw [List.all_cons, Bool.and_eq_true] at h
    exact ends_cons (CodePoint.all_of_isIn h.1 (p := (·.isIn " \t\n\r,]\x7d")) (by decide)) _

/-- The text spells a value to a reader, whatever follows. -/
structure Spells (item : Text → Read Value) (t : Text) (v : Value) : Prop where
  read : ∀ rest, Ends rest → item (t ++ rest) = .ok (v, rest)
  head : ∃ c r, t = c :: r ∧ ¬isBlank c ∧ c ≠ .ofChar ']'

/-! ## Integers -/

/-- The text consists of digits. -/
def AreDigits (ds : Text) : Prop := ∀ c ∈ ds, c.isAsciiDigit

theorem areDigits_ofNat (n : Nat) : AreDigits (Text.ofNat n) := fun _ hc => Text.mem_ofNat hc

theorem takeDigits_append {ds rest : Text} (hds : AreDigits ds) (h : ∀ c ∈ rest.head?, ¬c.isAsciiDigit) :
    takeDigits (ds ++ rest) = (ds.map (·.val - 0x30), rest) := by
  have hdigits : ∀ c ∈ ds, c.isAsciiDigit = true := hds
  rw [takeDigits, List.span_eq_takeWhile_dropWhile, Text.takeWhile_append_stop hdigits h,
    Text.dropWhile_append_stop hdigits h]

theorem val_digitChar : ∀ n < 10, (CodePoint.ofChar (Nat.digitChar n)).val - 0x30 = n := by decide

/-- Only the numeral of zero starts with a zero. -/
theorem head_ofNat (n : Nat) :
    ∃ d ds, (Text.ofNat n).map (·.val - 0x30) = d :: ds ∧ (d = 0 → n = 0) := by
  induction n using Nat.strongRecOn with
  | ind n ih =>
    rcases Nat.lt_or_ge n 10 with h | h
    · rw [Text.ofNat, Text.digits, Nat.toDigits_of_lt_base h]
      exact ⟨_, [], rfl, fun hd => (val_digitChar n h).symm.trans hd⟩
    · obtain ⟨d, ds, hdigits, hzero⟩ := ih (n / 10) (by omega)
      have hn : Text.ofNat n =
          Text.ofNat (n / 10) ++ [CodePoint.ofChar (Nat.digitChar (n % 10))] := by
        rw [Text.ofNat, Text.digits, Nat.toDigits_of_base_le (by decide) h, List.map_append]
        rfl
      rw [hn, List.map_append, hdigits]
      exact ⟨d, _, rfl, fun hd => absurd (hzero hd) (by omega)⟩

/-- The digits of a whole number: a zero stands for itself alone. -/
structure IsWhole (ds : Text) : Prop where
  digits : AreDigits ds
  shape : ∃ d r, ds.map (·.val - 0x30) = d :: r ∧ (d = 0 → r = [])

theorem isWhole_ofNat (n : Nat) : IsWhole (Text.ofNat n) := by
  obtain ⟨d, ds, hdigits, hzero⟩ := head_ofNat n
  refine ⟨areDigits_ofNat n, d, ds, hdigits, fun hd => ?_⟩
  obtain rfl := hzero hd
  exact (List.cons.inj hdigits).2.symm

theorem takeIntegerPart_append {ds rest : Text} (hds : IsWhole ds) (h : ∀ c ∈ rest.head?, ¬c.isAsciiDigit) :
    takeIntegerPart (ds ++ rest) = some (ds.map (·.val - 0x30), rest) := by
  obtain ⟨d, r, hdigits, hzero⟩ := hds.shape
  have htake := takeDigits_append hds.digits h
  rw [hdigits] at htake ⊢
  rw [takeIntegerPart, htake]
  cases d with
  | succ d => rfl
  | zero =>
    obtain rfl := hzero rfl
    obtain ⟨c, rfl⟩ : ∃ c, ds = [c] := List.length_eq_one_iff.mp (by simpa using congrArg List.length hdigits)
    rfl

theorem not_isAsciiDigit_of_ends {rest : Text} (h : Ends rest) :
    ∀ c ∈ rest.head?, ¬c.isAsciiDigit :=
  fun c hc => CodePoint.not_of_isIn (h c hc) (by decide)

theorem takeFraction_of_ends {rest : Text} (h : Ends rest) : takeFraction rest = (none, rest) := by
  cases rest with
  | nil => rfl
  | cons c r =>
    have hc : c ≠ .ofChar '.' := by
      rintro rfl
      exact absurd (h _ rfl) (by decide)
    simp [takeFraction, hc]

theorem takeExponent_of_ends {rest : Text} (h : Ends rest) : takeExponent rest = (none, rest) := by
  cases rest with
  | nil => rfl
  | cons c r =>
    have hc : ¬c.isIn "eE" := CodePoint.not_of_isIn (h c rfl) (p := (·.isIn "eE")) (by decide)
    rw [takeExponent, if_neg hc]

theorem readNumber_ofNat {n : Nat} (hn : (Text.ofNat n).length ≤ digitLimit) (negative : Bool)
    {rest : Text} (h : Ends rest) :
    readNumber negative (Text.ofNat n ++ rest) =
      .ok (.int (if negative then -(n : Int) else n), rest) := by
  have hvalue : readDigits 0 ((Text.ofNat n).map (·.val - 0x30)) = n := by
    rw [Text.ofNat, Text.digits, Text.readDigits_ofChars, Nat.ofDigitChars_ten_toDigits]
  have hlimit : ¬digitLimit < ((Text.ofNat n).map (·.val - 0x30)).length := by
    rw [List.length_map]
    omega
  simp only [readNumber, takeIntegerPart_append (isWhole_ofNat n) (not_isAsciiDigit_of_ends h),
    takeFraction_of_ends h, takeExponent_of_ends h, hvalue, if_neg hlimit]

/-- The text starts with a digit, or with a minus and a digit. -/
def startsNumber : Text → Bool
  | [] => false
  | [c] => c.isAsciiDigit
  | c :: d :: _ => c.isAsciiDigit || (c = .ofChar '-' && d.isAsciiDigit)

theorem startsNumber_of_prefix {t u : Text} (h : t <+: u) (ht : 2 ≤ t.length) :
    startsNumber t = startsNumber u := by
  obtain ⟨r, rfl⟩ := h
  match t, ht with
  | c :: d :: t, _ => rfl

theorem find?_words {t : Text} (h : startsNumber t) :
    (words.find? fun w => t.startsWith w.1) = none := by
  have hwords : ∀ w ∈ words, 2 ≤ w.1.length ∧ startsNumber w.1 = false := by decide
  rw [List.find?_eq_none]
  intro w hw hstart
  obtain ⟨hlength, hnumber⟩ := hwords w hw
  have heq := startsNumber_of_prefix (List.isPrefixOf_iff_prefix.mp hstart) hlength
  rw [heq, h] at hnumber
  exact absurd hnumber (by decide)

theorem readScalar_digit {c : CodePoint} {r : Text} (hc : c.isAsciiDigit) :
    readScalar (c :: r) = readNumber false (c :: r) := by
  have hnumber : startsNumber (c :: r) := by cases r <;> simp [startsNumber, hc]
  have hminus : c ≠ .ofChar '-' := by
    rintro rfl
    exact absurd hc (by decide)
  simp only [readScalar, find?_words hnumber, hminus, ↓reduceIte]

theorem readScalar_minus {c : CodePoint} {r : Text} (hc : c.isAsciiDigit) :
    readScalar (.ofChar '-' :: c :: r) = readNumber true (c :: r) := by
  have hnumber : startsNumber (.ofChar '-' :: c :: r) := by simp [startsNumber, hc]
  simp only [readScalar, find?_words hnumber, ↓reduceIte]

/-- A character with which no text, list or object starts. -/
theorem readValue_scalar {c : CodePoint} (h : ¬c.isIn "\"[\x7b") (depth : Nat) (r : Text) :
    readValue depth (c :: r) = readScalar (c :: r) := by
  have hne : ∀ d ∈ Text.ofString "\"[\x7b", c ≠ d := fun d hd heq =>
    h (CodePoint.isIn_iff.mpr (heq ▸ hd))
  have hquote : c ≠ .ofChar '"' := hne _ (by decide)
  have hbracket : c ≠ .ofChar '[' := hne _ (by decide)
  have hbrace : c ≠ .ofChar '\x7b' := hne _ (by decide)
  cases depth <;> simp only [readValue, hquote, hbracket, hbrace, ↓reduceIte]

theorem cons_of_isAsciiDigit {t : Text} (hne : t ≠ []) (h : ∀ c ∈ t, c.isAsciiDigit) :
    ∃ c r, t = c :: r ∧ c.isAsciiDigit := by
  cases t with
  | nil => exact absurd rfl hne
  | cons c r => exact ⟨c, r, rfl, h c List.mem_cons_self⟩

theorem spells_ofInt {n : Int} (hn : (Text.ofNat n.natAbs).length ≤ digitLimit) (depth : Nat) :
    Spells (readValue depth) (Text.ofInt n) (.int n) := by
  cases n with
  | ofNat n =>
    obtain ⟨c, r, hdigits, hc⟩ := cons_of_isAsciiDigit (Text.ofNat_ne_nil n) fun _ => Text.mem_ofNat
    have hshape : Text.ofInt (.ofNat n) = c :: r := hdigits
    refine ⟨fun rest hrest => ?_, c, r, hshape, ?_, ?_⟩
    · have hread := readNumber_ofNat hn false hrest
      rw [Int.natAbs, hdigits] at hread
      rw [hshape, List.cons_append, readValue_scalar (CodePoint.not_isIn hc (by decide)),
        readScalar_digit hc]
      exact hread
    · exact CodePoint.not_isIn hc (by decide)
    · rintro rfl
      exact absurd hc (by decide)
  | negSucc n =>
    obtain ⟨c, r, hdigits, hc⟩ :=
      cons_of_isAsciiDigit (Text.ofNat_ne_nil (n + 1)) fun _ => Text.mem_ofNat
    have hshape : Text.ofInt (.negSucc n) = .ofChar '-' :: c :: r := by
      rw [Text.ofInt, hdigits]
      rfl
    refine ⟨fun rest hrest => ?_, _, _, hshape, by decide, by decide⟩
    have hread := readNumber_ofNat hn true hrest
    rw [Int.natAbs, hdigits] at hread
    rw [hshape, List.cons_append, readValue_scalar (by decide), List.cons_append,
      readScalar_minus hc]
    exact hread

/-! ## Words and texts -/

/-- No word is the start of another one, so each is found in front of anything. -/
theorem find?_word {w : Text × Value} (hw : w ∈ words) (rest : Text) :
    (words.find? fun w' => (w.1 ++ rest).startsWith w'.1) = some w := by
  have hapart : ∀ w ∈ words, ∀ w' ∈ words, w.1.isPrefixOf w'.1 → w.1 = w'.1 := by decide
  have hself : (w.1 ++ rest).startsWith w.1 := List.isPrefixOf_iff_prefix.mpr (List.prefix_append _ _)
  obtain ⟨found, hfound⟩ :
      ∃ found, (words.find? fun w' => (w.1 ++ rest).startsWith w'.1) = some found := by
    rw [← Option.isSome_iff_exists, List.find?_isSome]
    exact ⟨w, hw, hself⟩
  have hmem := List.mem_of_find?_eq_some hfound
  have hfits : (w.1 ++ rest).startsWith found.1 := by simpa using List.find?_some hfound
  have hstart := List.isPrefixOf_iff_prefix.mp hfits
  have hsame : found.1 = w.1 := by
    rcases List.prefix_or_prefix_of_prefix hstart (List.prefix_append w.1 rest) with hle | hle
    · exact hapart _ hmem _ hw (List.isPrefixOf_iff_prefix.mpr hle)
    · exact (hapart _ hw _ hmem (List.isPrefixOf_iff_prefix.mpr hle)).symm
  rw [hfound, List.inj_on_of_nodup_map (by decide : (words.map (·.1)).Nodup) hmem hw hsame]

theorem spells_word {w : Text × Value} (hw : w ∈ words) (depth : Nat) :
    Spells (readValue depth) w.1 w.2 := by
  have hheads : ∀ w ∈ words, ∃ c ∈ w.1.head?, ¬c.isIn "\"[\x7b" ∧ ¬isBlank c ∧ c ≠ .ofChar ']' := by decide
  obtain ⟨c, hc, hscalar, hblank, hbracket⟩ := hheads w hw
  obtain ⟨r, hshape⟩ : ∃ r, w.1 = c :: r := List.head?_eq_some_iff.mp hc
  refine ⟨fun rest _ => ?_, c, r, hshape, hblank, hbracket⟩
  have hread : readScalar (w.1 ++ rest) = .ok (w.2, rest) := by
    simp only [readScalar, find?_word hw, List.drop_left]
  rw [hshape, List.cons_append] at hread ⊢
  rw [readValue_scalar hscalar, hread]

theorem spells_bool (b : Bool) (depth : Nat) :
    Spells (readValue depth) (if b then "true" else "false" : Text) (.bool b) := by
  cases b with
  | true => exact spells_word (.tail _ (.head _)) depth
  | false => exact spells_word (.tail _ (.tail _ (.head _))) depth

theorem writeText_append (plain : CodePoint → Bool) (t rest : Text) :
    writeText plain t ++ rest = .ofChar '"' :: (t.flatMap (writeChar plain) ++ .ofChar '"' :: rest) := by
  simp only [writeText, List.append_assoc]
  rfl

section

variable {plain : CodePoint → Bool} (hplain : ∀ c, plain c → 0x20 ≤ c.val)
include hplain

theorem spells_writeText (t : Text) (depth : Nat) :
    Spells (readValue depth) (writeText plain t) (.text (respelled plain t)) where
  read rest _ := by
    rw [writeText_append]
    cases depth <;> simp only [readValue, ↓reduceIte, readText_writeText hplain t rest]
  head := ⟨_, _, rfl, by decide, by decide⟩

theorem readKey_writeText (key : Text) {blanks rest : Text}
    (hblanks : blanks.all isBlank) (hrest : ∀ c ∈ rest.head?, ¬isBlank c) :
    readKey (writeText plain key ++ (.ofChar ':' :: blanks ++ rest)) = .ok (respelled plain key, rest) := by
  have hcolon : skipBlanks (.ofChar ':' :: (blanks ++ rest)) = .ofChar ':' :: (blanks ++ rest) := rfl
  rw [writeText_append, List.cons_append]
  simp only [readKey, ↓reduceIte, readText_writeText hplain, hcolon,
    skipBlanks_append hblanks hrest]

end

/-! ## Lists and objects -/

theorem Spells.not_isBlank {item : Text → Read Value} {t u : Text} {v : Value}
    (h : Spells item t v) (hu : t <+: u) (rest : Text) : ∀ c ∈ (u ++ rest).head?, ¬isBlank c := by
  obtain ⟨c, r, rfl, hc, -⟩ := h.head
  obtain ⟨s, rfl⟩ := hu
  intro d hd
  obtain rfl := Option.some.inj hd
  exact hc

theorem Spells.length_pos {item : Text → Read Value} {t : Text} {v : Value}
    (h : Spells item t v) : 0 < t.length := by
  obtain ⟨c, r, rfl, -⟩ := h.head
  exact Nat.succ_pos _

theorem skipBlanks_cons {c : CodePoint} (hc : isBlank c = false) (t : Text) :
    skipBlanks (c :: t) = c :: t :=
  List.dropWhile_cons_of_neg (by simp [hc])

section Parts

variable {item : Text → Read Value} {write : Value → Text} {sep behind : Text}

/-- The first of several parts and the comma behind it. -/
theorem join_comma {α : Type} (write : α → Text) (a b : α) (as : List α) (rest : Text) :
    Text.join (.ofChar ',' :: sep) ((a :: b :: as).map write) ++ rest =
      write a ++ .ofChar ',' :: (sep ++
        (Text.join (.ofChar ',' :: sep) ((b :: as).map write) ++ rest)) := by
  rw [List.map_cons, Text.join_cons _ _ (by simp)]
  simp

/-- Items with commas between them are read up to the closing bracket. -/
theorem readItems_join (hsep : sep.all isBlank) (hbehind : behind.all isBlank) {items values : List Value}
    (hne : items ≠ []) (h : List.Forall₂ (fun v => Spells item (write v)) items values) (rest : Text)
    {n : Nat} (hn : items.length ≤ n) :
    readItems item n
        (Text.join (.ofChar ',' :: sep) (items.map write) ++ (behind ++ .ofChar ']' :: rest)) =
      .ok (values, rest) := by
  induction h generalizing n with
  | nil => exact absurd rfl hne
  | @cons v v' items values hv h ih =>
    obtain ⟨m, rfl⟩ : ∃ m, n = m + 1 := ⟨n - 1, by rw [List.length_cons] at hn; omega⟩
    cases h with
    | nil =>
      have hskip : skipBlanks (behind ++ .ofChar ']' :: rest) = .ofChar ']' :: rest :=
        skipBlanks_append hbehind (by simp; decide)
      have hread := hv.read _ (ends_blanks (c := .ofChar ']') hbehind (by decide) rest)
      simp only [List.map_cons, List.map_nil, Text.join, readItems, hread, hskip, ↓reduceIte]
    | @cons w w' items values hw h =>
      have htail := ih (List.cons_ne_nil w items) (n := m) (by rw [List.length_cons] at hn; omega)
      -- `u` is what the reader finds behind the comma and its blanks.
      generalize hu : Text.join (.ofChar ',' :: sep) ((w :: items).map write) ++
        (behind ++ .ofChar ']' :: rest) = u at htail
      have hnext : ∀ c ∈ u.head?, ¬isBlank c := hu ▸ hw.not_isBlank (Text.prefix_join _ _ _) _
      have hread := hv.read (.ofChar ',' :: (sep ++ u)) (ends_cons (by decide) _)
      have hclose : CodePoint.ofChar ',' ≠ .ofChar ']' := by decide
      rw [join_comma, hu, readItems]
      simp only [hread, skipBlanks_cons (by decide : isBlank (.ofChar ',') = false), hclose, ↓reduceIte,
        skipBlanks_append hsep hnext, htail]

/-- A key with its value, `colon` behind the colon. -/
def writeField (plain : CodePoint → Bool) (colon : Text) (write : Value → Text) (f : Text × Value) :
    Text :=
  writeText plain f.1 ++ (.ofChar ':' :: colon ++ write f.2)

/-- What a field is read as: its key respelled, with what its value spells. -/
def SpellsField (plain : CodePoint → Bool) (item : Text → Read Value) (write : Value → Text)
    (f f' : Text × Value) : Prop :=
  f'.1 = respelled plain f.1 ∧ Spells item (write f.2) f'.2

/-- Fields start with the quotation mark of the first key. -/
theorem join_fields_eq_cons (plain : CodePoint → Bool) (colon sep : Text) (f : Text × Value)
    (fields : List (Text × Value)) (rest : Text) :
    ∃ r, Text.join sep ((f :: fields).map (writeField plain colon write)) ++ rest =
      .ofChar '"' :: r := by
  obtain ⟨r, hr⟩ := Text.prefix_join sep (writeField plain colon write f)
    (fields.map (writeField plain colon write))
  rw [List.map_cons, ← hr, writeField, List.append_assoc, List.append_assoc, writeText_append]
  exact ⟨_, rfl⟩

/-- Fields with commas between them are read up to the closing brace. -/
theorem readFields_join {plain : CodePoint → Bool} (hplain : ∀ c, plain c → 0x20 ≤ c.val)
    {colon : Text} (hcolon : colon.all isBlank) (hsep : sep.all isBlank)
    (hbehind : behind.all isBlank) {fields values : List (Text × Value)} (hne : fields ≠ [])
    (h : List.Forall₂ (SpellsField plain item write) fields values)
    (rest : Text) {n : Nat} (hn : fields.length ≤ n) :
    readFields item n
        (Text.join (.ofChar ',' :: sep) (fields.map (writeField plain colon write)) ++
          (behind ++ .ofChar '\x7d' :: rest)) =
      .ok (values, rest) := by
  induction h generalizing n with
  | nil => exact absurd rfl hne
  | @cons f f' fields values hfield h ih =>
    obtain ⟨m, rfl⟩ : ∃ m, n = m + 1 := ⟨n - 1, by rw [List.length_cons] at hn; omega⟩
    obtain ⟨hname, hf⟩ := hfield
    have hkey : ∀ r, readKey (writeField plain colon write f ++ r) = .ok (f'.1, write f.2 ++ r) := by
      intro r
      have hread := readKey_writeText hplain f.1 hcolon (hf.not_isBlank (List.prefix_refl _) r)
      rw [writeField, List.append_assoc, List.append_assoc, hname]
      exact hread
    cases h with
    | nil =>
      have hskip : skipBlanks (behind ++ .ofChar '\x7d' :: rest) = .ofChar '\x7d' :: rest :=
        skipBlanks_append hbehind (by simp; decide)
      have hread := hf.read _ (ends_blanks (c := .ofChar '\x7d') hbehind (by decide) rest)
      simp only [List.map_cons, List.map_nil, Text.join, readFields, hkey, hread, hskip, ↓reduceIte]
    | @cons g g' fields values hg h =>
      have htail := ih (List.cons_ne_nil g fields) (n := m) (by rw [List.length_cons] at hn; omega)
      generalize hu : Text.join (.ofChar ',' :: sep)
        ((g :: fields).map (writeField plain colon write)) ++ (behind ++ .ofChar '\x7d' :: rest) = u
        at htail
      have hnext : ∀ c ∈ u.head?, ¬isBlank c := by
        obtain ⟨r, hr⟩ := join_fields_eq_cons plain colon (.ofChar ',' :: sep) g fields
          (behind ++ .ofChar '\x7d' :: rest)
        rw [← hu, hr]
        simp
        decide
      have hread := hf.read (.ofChar ',' :: (sep ++ u)) (ends_cons (by decide) _)
      have hclose : CodePoint.ofChar ',' ≠ .ofChar '\x7d' := by decide
      rw [join_comma, hu, readFields]
      simp only [hkey, hread, skipBlanks_cons (by decide : isBlank (.ofChar ',') = false), hclose, ↓reduceIte,
        skipBlanks_append hsep hnext, htail]

theorem length_le_join {α : Type} {write : α → Text} {sep : Text} {parts : List α}
    (h : ∀ a ∈ parts, 0 < (write a).length) :
    parts.length ≤ (Text.join sep (parts.map write)).length := by
  induction parts with
  | nil => exact Nat.zero_le _
  | cons a parts ih =>
    have ha := h a List.mem_cons_self
    cases parts with
    | nil => exact ha
    | cons b parts =>
      have hrest := ih fun c hc => h c (List.mem_cons_of_mem a hc)
      rw [List.map_cons, Text.join_cons _ _ (by simp), List.length_append, List.length_append,
        List.length_cons]
      omega

end Parts

section Brackets

variable {depth : Nat} {write : Value → Text} {sep before behind : Text}

/-- A list is read if its items are, with any blanks before, between and behind them. -/
theorem spells_list (hsep : sep.all isBlank) (hbefore : before.all isBlank)
    (hbehind : behind.all isBlank) {items values : List Value} (hne : items ≠ [])
    (h : List.Forall₂ (fun v => Spells (readValue depth) (write v)) items values) :
    Spells (readValue (depth + 1))
      (.ofChar '[' :: (before ++ (Text.join (.ofChar ',' :: sep) (items.map write) ++
        (behind ++ [.ofChar ']']))))
      (.list values) where
  read rest _ := by
    obtain ⟨v, items, rfl⟩ := List.exists_cons_of_ne_nil hne
    have hspells : ∀ v' ∈ v :: items, ∃ value, Spells (readValue depth) (write v') value := by
      intro v' hv'
      obtain ⟨value, -, hvalue⟩ := exists_of_forall₂ h.flip hv'
      exact ⟨value, hvalue⟩
    obtain ⟨value, hv⟩ := hspells v List.mem_cons_self
    generalize hinside : Text.join (.ofChar ',' :: sep) ((v :: items).map write) ++
      (behind ++ .ofChar ']' :: rest) = inside
    have hprefix : write v <+: Text.join (.ofChar ',' :: sep) ((v :: items).map write) :=
      Text.prefix_join _ _ _
    have hskip : skipBlanks (before ++ inside) = inside :=
      skipBlanks_append hbefore (hinside ▸ hv.not_isBlank hprefix _)
    have hopen : inside.startsWithChar ']' = false := by
      obtain ⟨c, r, hwrite, -, hc⟩ := hv.head
      obtain ⟨u, hu⟩ := hprefix
      rw [← hinside, ← hu, hwrite]
      simpa [Text.startsWithChar] using hc
    have hlength : (v :: items).length ≤ inside.length := by
      have hle : (v :: items).length ≤
          (Text.join (.ofChar ',' :: sep) ((v :: items).map write)).length :=
        length_le_join fun v hv => (hspells v hv).elim fun _ => Spells.length_pos
      rw [← hinside, List.length_append]
      omega
    have hread := readItems_join hsep hbehind hne h rest hlength
    rw [hinside] at hread
    have htext : .ofChar '[' :: (before ++ (Text.join (.ofChar ',' :: sep)
        ((v :: items).map write) ++ (behind ++ [.ofChar ']']))) ++ rest =
        .ofChar '[' :: (before ++ inside) := by
      rw [← hinside]
      simp
    have hquote : CodePoint.ofChar '[' ≠ .ofChar '"' := by decide
    rw [htext]
    simp only [readValue, hquote, ↓reduceIte, hskip, hopen, Bool.false_eq_true, hread]
  head := ⟨_, _, rfl, by decide, by decide⟩

theorem setField_of_not_mem {fields : List (Text × Value)} {key : Text}
    (h : key ∉ fields.map (·.1)) (v : Value) :
    Value.setField fields key v = fields ++ [(key, v)] := by
  have hnone : ¬fields.any (·.1 = key) := by
    rw [List.any_eq_true]
    rintro ⟨f, hf, he⟩
    exact h (List.mem_map.mpr ⟨f, hf, of_decide_eq_true he⟩)
  rw [Value.setField, if_neg hnone]

/-- Fields with keys of their own are kept. -/
theorem mergeFields_eq_self {fields : List (Text × Value)} (h : (fields.map (·.1)).Nodup) :
    mergeFields fields = fields := by
  have hfold : ∀ before : List (Text × Value), ((before ++ fields).map (·.1)).Nodup →
      fields.foldl (fun fs f => Value.setField fs f.1 f.2) before = before ++ fields := by
    clear h
    induction fields with
    | nil => exact fun before _ => (List.append_nil before).symm
    | cons f fields ih =>
      intro before h
      have hf : f.1 ∉ before.map (·.1) := by
        intro hmem
        rw [List.map_append, List.map_cons] at h
        exact (List.nodup_append.mp h).2.2 f.1 hmem f.1 List.mem_cons_self rfl
      rw [List.foldl_cons, setField_of_not_mem hf, ih (before ++ [f]) (by simpa using h)]
      simp
  exact hfold [] h

/-- An object is read if its values are, with any blanks before, between and behind its fields. -/
theorem spells_object {plain : CodePoint → Bool} (hplain : ∀ c, plain c → 0x20 ≤ c.val)
    {colon : Text} (hcolon : colon.all isBlank) (hsep : sep.all isBlank)
    (hbefore : before.all isBlank) (hbehind : behind.all isBlank) {fields values : List (Text × Value)}
    (hne : fields ≠ []) (h : List.Forall₂ (SpellsField plain (readValue depth) write) fields values) :
    Spells (readValue (depth + 1))
      (.ofChar '\x7b' :: (before ++ (Text.join (.ofChar ',' :: sep)
        (fields.map (writeField plain colon write)) ++ (behind ++ [.ofChar '\x7d']))))
      (.object (mergeFields values)) where
  read rest _ := by
    obtain ⟨f, fields, rfl⟩ := List.exists_cons_of_ne_nil hne
    generalize hinside : Text.join (.ofChar ',' :: sep)
      ((f :: fields).map (writeField plain colon write)) ++ (behind ++ .ofChar '\x7d' :: rest) = inside
    have hstart : ∃ r, inside = .ofChar '"' :: r :=
      hinside ▸ join_fields_eq_cons plain colon _ f fields _
    have hskip : skipBlanks (before ++ inside) = inside := by
      refine skipBlanks_append hbefore ?_
      obtain ⟨r, rfl⟩ := hstart
      simp
      decide
    have hopen : inside.startsWithChar '\x7d' = false := by
      obtain ⟨r, rfl⟩ := hstart
      rfl
    have hlength : (f :: fields).length ≤ inside.length := by
      have hle : (f :: fields).length ≤ (Text.join (.ofChar ',' :: sep)
          ((f :: fields).map (writeField plain colon write))).length :=
        length_le_join fun _ _ => Nat.succ_pos _
      rw [← hinside, List.length_append]
      omega
    have hread := readFields_join hplain hcolon hsep hbehind hne h rest hlength
    rw [hinside] at hread
    have htext : .ofChar '\x7b' :: (before ++ (Text.join (.ofChar ',' :: sep)
        ((f :: fields).map (writeField plain colon write)) ++ (behind ++ [.ofChar '\x7d']))) ++ rest =
        .ofChar '\x7b' :: (before ++ inside) := by
      rw [← hinside]
      simp
    have hquote : CodePoint.ofChar '\x7b' ≠ .ofChar '"' := by decide
    have hbracket : CodePoint.ofChar '\x7b' ≠ .ofChar '[' := by decide
    rw [htext]
    simp only [readValue, hquote, hbracket, ↓reduceIte, hskip, hopen, Bool.false_eq_true, hread]
  head := ⟨_, _, rfl, by decide, by decide⟩

end Brackets

/-! ## Values -/

/-- Values that come back as they were written, nested no deeper than `depth`. -/
inductive Lossless : Nat → Value → Prop where
  | null {depth : Nat} : Lossless depth .null
  | bool {depth : Nat} (b : Bool) : Lossless depth (.bool b)
  | int {depth : Nat} {n : Int} (h : (Text.ofNat n.natAbs).length ≤ digitLimit) :
      Lossless depth (.int n)
  | text {depth : Nat} {t : Text} (h : t.Unpaired) : Lossless depth (.text t)
  | list {depth : Nat} {items : List Value} (h : ∀ v ∈ items, Lossless depth v) :
      Lossless (depth + 1) (.list items)
  | object {depth : Nat} {fields : List (Text × Value)} (hn : (fields.map (·.1)).Nodup)
      (hkeys : ∀ f ∈ fields, f.1.Unpaired) (h : ∀ f ∈ fields, Lossless depth f.2) :
      Lossless (depth + 1) (.object fields)

theorem areLegible_iff {items : List Value} : Value.areLegible items ↔ ∀ v ∈ items, v.isLegible := by
  induction items with
  | nil => simp [Value.areLegible]
  | cons v items ih => simp [Value.areLegible, ih]

theorem fieldsLegible_iff {fields : List (Text × Value)} :
    Value.fieldsLegible fields ↔ ∀ f ∈ fields, f.2.isLegible := by
  induction fields with
  | nil => simp [Value.fieldsLegible]
  | cons f fields ih => simp [Value.fieldsLegible, ih]

/-- What is lossless can be written out. -/
theorem Lossless.isLegible {depth : Nat} {v : Value} (h : Lossless depth v) : v.isLegible := by
  induction h with
  | null | bool _ | text _ => rfl
  | int h => exact decide_eq_true h
  | list _ ih => exact areLegible_iff.mpr ih
  | object _ _ _ ih => exact fieldsLegible_iff.mpr ih

/-- An object whose keys are `keys`, distinct and without pairs of surrogates, is lossless if its values are. -/
theorem Lossless.of_keys {depth : Nat} {fields : List (Text × Value)} {keys : List Text}
    (hkeys : fields.map (·.1) = keys) (hdistinct : keys.Nodup) (hunpaired : ∀ key ∈ keys, key.Unpaired)
    (h : ∀ f ∈ fields, Lossless depth f.2) : Lossless (depth + 1) (.object fields) := by
  subst hkeys
  exact .object hdistinct (List.forall_mem_map.mp hunpaired) h

theorem writeIndentedItems_eq (level : Nat) (items : List Value) :
    writeIndentedItems level items = items.map (writeIndented level) := by
  induction items with
  | nil => rfl
  | cons v items ih => rw [writeIndentedItems, ih, List.map_cons]

theorem writeIndentedFields_eq (level : Nat) (fields : List (Text × Value)) :
    writeIndentedFields level fields =
      fields.map (writeField isPrintableAscii " " (writeIndented level)) := by
  induction fields with
  | nil => rfl
  | cons f fields ih =>
    rw [writeIndentedFields, ih, List.map_cons, writeField, List.append_assoc]
    rfl

theorem all_isBlank_newline (level : Nat) : (newline level).all isBlank := by
  have hspace : isBlank (.ofChar ' ') := by decide
  have hnewline : isBlank (.ofChar '\n') := by decide
  simp [newline, hspace, hnewline]

theorem le_of_isPrintableAscii (c : CodePoint) (h : isPrintableAscii c) : 0x20 ≤ c.val := by
  simp only [isPrintableAscii, Bool.and_eq_true, decide_eq_true_eq] at h
  exact h.1

section Indented

variable {depth : Nat} (level : Nat)

/-- A list in its indented layout is read if its items are. -/
theorem spells_indentedList {items values : List Value}
    (h : List.Forall₂ (fun v => Spells (readValue depth) (writeIndented (level + 1) v)) items values) :
    Spells (readValue (depth + 1)) (writeIndented level (.list items)) (.list values) := by
  rw [writeIndented, block, writeIndentedItems_eq]
  split_ifs with hempty
  · obtain rfl : items = [] := by simpa using hempty
    cases h
    exact ⟨fun rest _ => rfl, _, _, rfl, by decide, by decide⟩
  · have hne : items ≠ [] := by simpa using hempty
    have hspells := spells_list (all_isBlank_newline (level + 1)) (all_isBlank_newline (level + 1))
      (all_isBlank_newline level) hne h
    rw [List.append_assoc, List.append_assoc, List.append_assoc]
    exact hspells

/-- An object in its indented layout is read if its values are. -/
theorem spells_indentedObject {fields values : List (Text × Value)}
    (h : List.Forall₂ (SpellsField isPrintableAscii (readValue depth) (writeIndented (level + 1))) fields
      values) :
    Spells (readValue (depth + 1)) (writeIndented level (.object fields)) (.object (mergeFields values)) := by
  rw [writeIndented, block, writeIndentedFields_eq]
  split_ifs with hempty
  · obtain rfl : fields = [] := by simpa using hempty
    cases h
    exact ⟨fun rest _ => rfl, _, _, rfl, by decide, by decide⟩
  · have hne : fields ≠ [] := by simpa using hempty
    have hcolon : (Text.ofString " ").all isBlank := by decide
    have hspells := spells_object le_of_isPrintableAscii hcolon
      (all_isBlank_newline (level + 1)) (all_isBlank_newline (level + 1))
      (all_isBlank_newline level) hne h
    rw [List.append_assoc, List.append_assoc, List.append_assoc]
    exact hspells

end Indented

theorem spells_writeIndented {depth : Nat} {v : Value} (h : Lossless depth v) (level : Nat) :
    Spells (readValue depth) (writeIndented level v) v := by
  induction h generalizing level with
  | null => exact spells_word (.head _) _
  | bool b => exact spells_bool b _
  | int h => exact spells_ofInt h _
  | @text depth t h =>
    have hspells := spells_writeText le_of_isPrintableAscii t depth
    rwa [respelled_eq_self isPrintableAscii h] at hspells
  | @list depth items h ih =>
    exact spells_indentedList level (List.forall₂_same.mpr fun v hv => ih v hv (level + 1))
  | @object depth fields hn hkeys h ih =>
    have hspells := spells_indentedObject level (List.forall₂_same.mpr fun f hf =>
      ⟨(respelled_eq_self isPrintableAscii (hkeys f hf)).symm, ih f hf (level + 1)⟩)
    rwa [mergeFields_eq_self hn] at hspells

/-- A text that spells a value is read as a whole, with a line end behind it. -/
theorem read_of_spells {depth : Nat} {t : Text} {v : Value} (h : Spells (readValue depth) t v) :
    read depth (t ++ [.ofChar '\n']) = .ok v := by
  have hstart : skipBlanks (t ++ [.ofChar '\n']) = t ++ [.ofChar '\n'] :=
    skipBlanks_append (List.all_nil : [].all isBlank = true) (h.not_isBlank (List.prefix_refl _) _)
  have hread := h.read [.ofChar '\n'] (ends_cons (by decide) [])
  simp only [read, hstart, hread]
  rfl

/-- A lossless value comes back from its indented layout. -/
theorem read_writeIndented {depth : Nat} {v : Value} (h : Lossless depth v) :
    read depth (writeIndented 0 v ++ [.ofChar '\n']) = .ok v :=
  read_of_spells (spells_writeIndented h 0)

end Findings.Json
