import Findings.Proofs.Json.Texts
import Findings.Proofs.Number.Bound
import Mathlib.Data.List.TakeDrop
import Mathlib.Data.List.TakeWhile

/-!
# What is read as JSON

What holds of all words, numbers and texts that are read, and of lists and objects if it holds of what is in
them (`Closed`), holds of every value that is read (`Closed.read`). Every reader of a part keeps to this, and
leaves an end of what it was given (`Sound`). So out of characters other than surrogates are read texts without
pairs of surrogates, integers with no more digits than are read, and numbers with a fraction that are no greater
than those (`closed_readable`).
-/

namespace Findings.Json

/-- A value as it is read. -/
inductive Readable : Value → Prop where
  | null : Readable .null
  | bool (b : Bool) : Readable (.bool b)
  | int {n : Int} (h : n.natAbs < 10 ^ digitLimit) : Readable (.int n)
  | float {x : Binary64} (h : ∀ n, x.truncate? = some n → n.natAbs < 10 ^ digitLimit) :
      Readable (.float x)
  | text {t : Text} (h : t.Unpaired) : Readable (.text t)
  | list {items : List Value} (h : ∀ v ∈ items, Readable v) : Readable (.list items)
  | object {fields : List (Text × Value)} (h : ∀ f ∈ fields, Readable f.2) : Readable (.object fields)

theorem Readable.natAbs_lt {n : Int} : Readable (.int n) → n.natAbs < 10 ^ digitLimit
  | .int h => h

theorem Readable.items {items : List Value} : Readable (.list items) → ∀ v ∈ items, Readable v
  | .list h => h

theorem Readable.fields {fields : List (Text × Value)} :
    Readable (.object fields) → ∀ f ∈ fields, Readable f.2
  | .object h => h

/-! ## Numbers -/

theorem readDigits_lt {ds : List Nat} (h : ∀ d ∈ ds, d < 10) (n : Nat) :
    readDigits n ds < (n + 1) * 10 ^ ds.length := by
  induction ds generalizing n with
  | nil => simp [readDigits]
  | cons d ds ih =>
    have hd := h d List.mem_cons_self
    calc readDigits (10 * n + d) ds
        < (10 * n + d + 1) * 10 ^ ds.length := ih (fun e he => h e (List.mem_cons_of_mem d he)) _
      _ ≤ ((n + 1) * 10) * 10 ^ ds.length := Nat.mul_le_mul_right _ (by omega)
      _ = (n + 1) * 10 ^ (ds.length + 1) := by rw [Nat.pow_succ, Nat.mul_assoc, Nat.mul_comm 10]

theorem readDigits_lt_limit {ds : List Nat} (h : ∀ d ∈ ds, d < 10) (hlength : ds.length ≤ digitLimit) :
    readDigits 0 ds < 10 ^ digitLimit :=
  calc readDigits 0 ds < (0 + 1) * 10 ^ ds.length := readDigits_lt h 0
    _ = 10 ^ ds.length := by rw [Nat.zero_add, Nat.one_mul]
    _ ≤ 10 ^ digitLimit := Nat.pow_le_pow_right (by decide) hlength

theorem takeDigits_spec (t : Text) : (∀ d ∈ (takeDigits t).1, d < 10) ∧ (takeDigits t).2 <:+ t := by
  simp only [takeDigits, List.span_eq_takeWhile_dropWhile]
  refine ⟨fun d hd => ?_, List.dropWhile_suffix _⟩
  obtain ⟨c, hc, rfl⟩ := List.mem_map.mp hd
  have hdigit := List.mem_takeWhile_imp hc
  simp only [CodePoint.isAsciiDigit, Bool.and_eq_true, decide_eq_true_eq] at hdigit
  omega

theorem takeFraction_suffix (t : Text) : (takeFraction t).2 <:+ t := by
  cases t with
  | nil => exact List.suffix_refl _
  | cons c r =>
    have hrest := (takeDigits_spec r).2
    simp only [takeFraction]
    split
    · exact hrest.trans (List.suffix_cons c r)
    · exact List.suffix_refl _

theorem takeSign_suffix (t : Text) : (takeSign t).2 <:+ t := by
  cases t with
  | nil => exact List.suffix_refl _
  | cons c r =>
    simp only [takeSign]
    split_ifs
    · exact List.suffix_cons c r
    · exact List.suffix_cons c r
    · exact List.suffix_refl _

theorem takeExponent_suffix (t : Text) : (takeExponent t).2 <:+ t := by
  cases t with
  | nil => exact List.suffix_refl _
  | cons c r =>
    have hrest := ((takeDigits_spec (takeSign r).2).2.trans (takeSign_suffix r)).trans
      (List.suffix_cons c r)
    rw [takeExponent]
    split
    · simp only
      split
      · exact List.suffix_refl _
      · exact hrest
    · exact List.suffix_refl _

theorem takeIntegerPart_spec {t rest : Text} {ds : List Nat}
    (h : takeIntegerPart t = some (ds, rest)) : (∀ d ∈ ds, d < 10) ∧ rest <:+ t := by
  have hdigits := takeDigits_spec t
  unfold takeIntegerPart at h
  split at h
  · simp at h
  · obtain ⟨rfl, rfl⟩ := Prod.mk.inj (Option.some.inj h)
    exact ⟨by decide, List.drop_suffix 1 t⟩
  · next ds' rest' _ _ heq =>
    obtain ⟨rfl, rfl⟩ := Prod.mk.inj (Option.some.inj h)
    rw [heq] at hdigits
    exact hdigits

theorem natAbs_signed (negative : Bool) (n : Nat) :
    (if negative then -(n : Int) else n).natAbs = n := by
  split <;> simp

theorem readNumber_readable {negative : Bool} {t rest : Text} {v : Value}
    (h : readNumber negative t = .ok (v, rest)) : Readable v ∧ rest <:+ t := by
  unfold readNumber at h
  split at h
  · simp at h
  · next ds r hint =>
    obtain ⟨hds, hr⟩ := takeIntegerPart_spec hint
    have hrest := ((takeExponent_suffix (takeFraction r).2).trans (takeFraction_suffix r)).trans hr
    simp only at h
    split at h
    · split at h
      · simp at h
      · next hlimit =>
        obtain ⟨rfl, rfl⟩ := Prod.mk.inj (Except.ok.inj h)
        refine ⟨.int ?_, hrest⟩
        rw [natAbs_signed]
        exact readDigits_lt_limit hds (Nat.le_of_not_lt hlimit)
    · obtain ⟨rfl, rfl⟩ := Prod.mk.inj (Except.ok.inj h)
      refine ⟨.float fun n hn => ?_, hrest⟩
      obtain ⟨b, hb, hlt⟩ := Binary64.truncate?_ofDecimal hn
      exact hlt.trans_le (Nat.pow_le_pow_right (by decide) (hb.trans (by decide)))

theorem words_readable : ∀ w ∈ words, Readable w.2 := by
  simp only [words, List.forall_mem_cons, List.not_mem_nil, false_implies, implies_true, and_true]
  exact ⟨.null, .bool true, .bool false, .float (by simp [Binary64.truncate?]),
    .float (by simp [Binary64.truncate?]), .float (by simp [Binary64.truncate?])⟩

theorem readScalar_readable {t rest : Text} {v : Value} (h : readScalar t = .ok (v, rest)) :
    Readable v ∧ rest <:+ t := by
  unfold readScalar at h
  split at h
  · next w v' hfind =>
    obtain ⟨rfl, rfl⟩ := Prod.mk.inj (Except.ok.inj h)
    exact ⟨words_readable _ (List.mem_of_find?_eq_some hfind), List.drop_suffix _ t⟩
  · split at h
    · simp at h
    · next c r _ =>
      split_ifs at h with hminus
      · obtain ⟨hv, hrest⟩ := readNumber_readable h
        exact ⟨hv, hrest.trans (List.suffix_cons c r)⟩
      · exact readNumber_readable h

/-! ## Lists and objects -/

theorem isEncodable_of_suffix {t u : Text} (h : u <:+ t) (ht : t.isEncodable) : u.isEncodable :=
  Text.all_of_subset h.subset ht

/-- The reader leaves an end of what it is given, and what it reads out of what `Q` holds of is as `P` says. -/
def Sound (Q : Text → Prop) (P : Value → Prop) (item : Text → Read Value) : Prop :=
  ∀ t v rest, item t = .ok (v, rest) → rest <:+ t ∧ (Q t → P v)

theorem skipBlanks_suffix (t : Text) : skipBlanks t <:+ t := List.dropWhile_suffix _

theorem readKey_suffix {t key rest : Text} (h : readKey t = .ok (key, rest)) : rest <:+ t := by
  unfold readKey at h
  split at h
  · simp at h
  · next c r =>
    split at h
    · split at h
      · simp at h
      · next key' r' hkey =>
        have hskip := (skipBlanks_suffix r').trans (readText_suffix hkey)
        split at h
        · simp at h
        · next d r'' hd =>
          rw [hd] at hskip
          split at h
          · obtain ⟨rfl, rfl⟩ := Prod.mk.inj (Except.ok.inj h)
            exact ((skipBlanks_suffix r'').trans (List.suffix_cons d r'')).trans
              (hskip.trans (List.suffix_cons c r))
          · simp at h
    · simp at h

section Parts

variable {Q : Text → Prop} {P : Value → Prop} {item : Text → Read Value}
  (hQ : ∀ {t u : Text}, u <:+ t → Q t → Q u) (hitem : Sound Q P item)
include hQ hitem

theorem readItems_sound {n : Nat} {t rest : Text} {items : List Value}
    (h : readItems item n t = .ok (items, rest)) : rest <:+ t ∧ (Q t → ∀ v ∈ items, P v) := by
  induction n generalizing t items with
  | zero => simp [readItems] at h
  | succ n ih =>
    rw [readItems] at h
    split at h
    · simp at h
    · next v r hv =>
      obtain ⟨hr, hvalue⟩ := hitem t v r hv
      have hskip := (skipBlanks_suffix r).trans hr
      split at h
      · simp at h
      · next c after hc =>
        have hafter : after <:+ t := (List.suffix_cons c after).trans (hc ▸ hskip)
        split_ifs at h with hclose hcomma
        · obtain ⟨rfl, rfl⟩ := Prod.mk.inj (Except.ok.inj h)
          exact ⟨hafter, fun ht => List.forall_mem_singleton.mpr (hvalue ht)⟩
        · split at h
          · simp at h
          · next vs behind hvs =>
            obtain ⟨rfl, rfl⟩ := Prod.mk.inj (Except.ok.inj h)
            obtain ⟨hbehind, hrest⟩ := ih hvs
            have hnext := (skipBlanks_suffix after).trans hafter
            exact ⟨hbehind.trans hnext,
              fun ht => List.forall_mem_cons.mpr ⟨hvalue ht, hrest (hQ hnext ht)⟩⟩

theorem readFields_sound {n : Nat} {t rest : Text} {fields : List (Text × Value)}
    (h : readFields item n t = .ok (fields, rest)) : rest <:+ t ∧ (Q t → ∀ f ∈ fields, P f.2) := by
  induction n generalizing t fields with
  | zero => simp [readFields] at h
  | succ n ih =>
    rw [readFields] at h
    split at h
    · simp at h
    · next key r hkey =>
      have hr := readKey_suffix hkey
      split at h
      · simp at h
      · next v r' hv =>
        obtain ⟨hr', hvalue⟩ := hitem r v r' hv
        have hskip := (skipBlanks_suffix r').trans (hr'.trans hr)
        split at h
        · simp at h
        · next c after hc =>
          have hafter : after <:+ t := (List.suffix_cons c after).trans (hc ▸ hskip)
          split_ifs at h with hclose hcomma
          · obtain ⟨rfl, rfl⟩ := Prod.mk.inj (Except.ok.inj h)
            exact ⟨hafter, fun ht => List.forall_mem_singleton.mpr (hvalue (hQ hr ht))⟩
          · split at h
            · simp at h
            · next fs behind hfs =>
              obtain ⟨rfl, rfl⟩ := Prod.mk.inj (Except.ok.inj h)
              obtain ⟨hbehind, hrest⟩ := ih hfs
              have hnext := (skipBlanks_suffix after).trans hafter
              exact ⟨hbehind.trans hnext,
                fun ht => List.forall_mem_cons.mpr ⟨hvalue (hQ hr ht), hrest (hQ hnext ht)⟩⟩

end Parts

theorem forall_setField {P : Value → Prop} {fields : List (Text × Value)} (h : ∀ f ∈ fields, P f.2)
    (key : Text) {v : Value} (hv : P v) : ∀ f ∈ Value.setField fields key v, P f.2 := by
  intro f hf
  unfold Value.setField at hf
  split_ifs at hf
  · obtain ⟨g, hg, rfl⟩ := List.mem_map.mp hf
    split_ifs
    · exact hv
    · exact h g hg
  · rcases List.mem_append.mp hf with hf | hf
    · exact h f hf
    · rw [List.mem_singleton.mp hf]
      exact hv

theorem forall_mergeFields {P : Value → Prop} {fields : List (Text × Value)} (h : ∀ f ∈ fields, P f.2) :
    ∀ f ∈ mergeFields fields, P f.2 := by
  have hfold : ∀ before : List (Text × Value), (∀ f ∈ before, P f.2) →
      ∀ f ∈ fields.foldl (fun fs f => Value.setField fs f.1 f.2) before, P f.2 := by
    induction fields with
    | nil => exact fun before hbefore => hbefore
    | cons f fields ih =>
      intro before hbefore
      exact ih (fun g hg => h g (List.mem_cons_of_mem f hg)) _
        (forall_setField hbefore f.1 (h f List.mem_cons_self))
  exact hfold [] fun f hf => absurd hf List.not_mem_nil

/-! ## Values -/

/-- `P` holds of all that is read out of what `Q` holds of, with lists and objects nested no deeper than it
says, if it holds of what is in them; and `Q` holds of the ends of such texts. -/
structure Closed (Q : Text → Prop) (P : Nat → Value → Prop) : Prop where
  suffix : ∀ {t u : Text}, u <:+ t → Q t → Q u
  scalar : ∀ {depth : Nat} {t rest : Text} {v : Value}, readScalar t = .ok (v, rest) → P depth v
  text : ∀ {depth : Nat} {t s rest : Text}, Q t → readText t = .ok (s, rest) → P depth (.text s)
  list : ∀ {depth : Nat} {items : List Value}, (∀ v ∈ items, P depth v) → P (depth + 1) (.list items)
  object : ∀ {depth : Nat} {fields : List (Text × Value)}, (∀ f ∈ fields, P depth f.2) →
    P (depth + 1) (.object fields)

section Closed

variable {Q : Text → Prop} {P : Nat → Value → Prop} (hP : Closed Q P)
include hP

theorem Closed.sound_text {t : Text} {depth : Nat} {v : Value} {rest : Text}
    (h : (match readText t with
      | .error e => .error e
      | .ok (s, r) => .ok (.text s, r)) = (.ok (v, rest) : Read Value)) :
    rest <:+ t ∧ (Q t → P depth v) := by
  split at h
  · simp at h
  · next s r hread =>
    obtain ⟨rfl, rfl⟩ := Prod.mk.inj (Except.ok.inj h)
    exact ⟨readText_suffix hread, fun ht => hP.text ht hread⟩

theorem Closed.sound_scalar (depth : Nat) : Sound Q (P depth) readScalar :=
  fun _ _ _ h => ⟨(readScalar_readable h).2, fun _ => hP.scalar h⟩

theorem Closed.sound (depth : Nat) : Sound Q (P depth) (readValue depth) := by
  induction depth with
  | zero =>
    intro t v rest h
    cases t with
    | nil => simp [readValue] at h
    | cons c r =>
      have hr := List.suffix_cons c r
      simp only [readValue] at h
      split_ifs at h
      · obtain ⟨hrest, hv⟩ := hP.sound_text h
        exact ⟨hrest.trans hr, fun ht => hv (hP.suffix hr ht)⟩
      · exact hP.sound_scalar 0 _ v rest h
  | succ depth ih =>
    intro t v rest h
    cases t with
    | nil => simp [readValue] at h
    | cons c r =>
      have hr := List.suffix_cons c r
      have hskip := (skipBlanks_suffix r).trans hr
      have hdrop := (List.drop_suffix 1 (skipBlanks r)).trans hskip
      simp only [readValue] at h
      split_ifs at h
      · obtain ⟨hrest, hv⟩ := hP.sound_text h
        exact ⟨hrest.trans hr, fun ht => hv (hP.suffix hr ht)⟩
      · obtain ⟨rfl, rfl⟩ := Prod.mk.inj (Except.ok.inj h)
        exact ⟨hdrop, fun _ => hP.list (by simp)⟩
      · split at h
        · simp at h
        · next vs behind hvs =>
          obtain ⟨rfl, rfl⟩ := Prod.mk.inj (Except.ok.inj h)
          obtain ⟨hbehind, hitems⟩ := readItems_sound hP.suffix ih hvs
          exact ⟨hbehind.trans hskip, fun ht => hP.list (hitems (hP.suffix hskip ht))⟩
      · obtain ⟨rfl, rfl⟩ := Prod.mk.inj (Except.ok.inj h)
        exact ⟨hdrop, fun _ => hP.object (by simp)⟩
      · split at h
        · simp at h
        · next fs behind hfs =>
          obtain ⟨rfl, rfl⟩ := Prod.mk.inj (Except.ok.inj h)
          obtain ⟨hbehind, hfields⟩ := readFields_sound hP.suffix ih hfs
          exact ⟨hbehind.trans hskip,
            fun ht => hP.object (forall_mergeFields (hfields (hP.suffix hskip ht)))⟩
      · exact hP.sound_scalar _ _ v rest h

/-- What the whole of a text spells. -/
theorem Closed.read {depth : Nat} {t : Text} {v : Value} (ht : Q t) (h : read depth t = .ok v) :
    P depth v := by
  unfold Json.read at h
  split at h
  · simp at h
  · next v' r hv =>
    obtain ⟨-, hvalue⟩ := hP.sound depth _ v' r hv
    split_ifs at h
    obtain rfl := Except.ok.inj h
    exact hvalue (hP.suffix (skipBlanks_suffix t) ht)

end Closed

theorem closed_readable : Closed (·.isEncodable) fun _ => Readable :=
  ⟨isEncodable_of_suffix, fun h => (readScalar_readable h).1, fun ht h => .text (readText_unpaired ht h), .list,
    .object⟩

end Findings.Json
