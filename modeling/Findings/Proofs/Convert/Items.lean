import Findings.Proofs.Convert.Intake
import Findings.Proofs.Json.Rereading
import Findings.Proofs.Path.NormalForm
import Findings.Proofs.Report.Rendering
import Findings.Proofs.Text.Utf8

/-!
# What items report

What a findings file holds reports findings in a normal form (`Reports.normal`): paths are canonical, no text
has a pair of surrogates, and line numbers are natural and have no more digits than are read. This is so for
any value in place of a file or a line number. Message and identifier are kept as they are, so those have to
be texts (`HasTexts`).
-/

namespace Findings

/-! ## Numbers and paths out of values -/

theorem CodePoint.decimalValue?_lt {c : CodePoint} {d : Nat} (h : c.decimalValue? = some d) :
    d < 10 := by
  obtain ⟨start, hfind, rfl⟩ := Option.map_eq_some_iff.mp h
  have hrange := List.find?_some hfind
  simp only [Bool.and_eq_true, decide_eq_true_eq] at hrange
  omega

namespace Text

theorem digitRun?_lt {t : Text} {ds : List Nat} (h : t.digitRun? = some ds) : ∀ d ∈ ds, d < 10 := by
  fun_induction digitRun? t generalizing ds with
  | case1 => simp at h
  | case2 c =>
    obtain ⟨d, hd, rfl⟩ := Option.map_eq_some_iff.mp h
    simpa using CodePoint.decimalValue?_lt hd
  | case3 => simp at h
  | case4 c r v hv ih =>
    obtain ⟨ds', hds, rfl⟩ := Option.map_eq_some_iff.mp h
    exact List.forall_mem_cons.mpr ⟨CodePoint.decimalValue?_lt hv, ih hds⟩
  | case5 c d r v hv hd ih =>
    obtain ⟨ds', hds, rfl⟩ := Option.map_eq_some_iff.mp h
    exact List.forall_mem_cons.mpr ⟨CodePoint.decimalValue?_lt hv, ih hds⟩

theorem toNatWithin?_lt {t : Text} {n : Nat} (h : t.toNatWithin? = some n) : n < 10 ^ digitLimit := by
  unfold toNatWithin? at h
  split at h
  · simp at h
  · next ds hds =>
    split at h
    · next hlength =>
      obtain rfl := Option.some.inj h
      exact Json.readDigits_lt_limit (digitRun?_lt hds) hlength
    · simp at h

theorem toInt?_lt {t : Text} {n : Int} (h : t.toInt? = some n) : n.natAbs < 10 ^ digitLimit := by
  unfold toInt? at h
  split at h
  · simp at h
  · split_ifs at h
    · obtain ⟨m, hm, rfl⟩ := Option.map_eq_some_iff.mp h
      obtain ⟨n, hn, hcast⟩ := Option.bind_eq_some_iff.mp hm
      obtain rfl := Option.some.inj hcast
      rw [Int.natAbs_neg, Int.natAbs_natCast]
      exact toNatWithin?_lt hn
    · obtain ⟨n, hn, rfl⟩ := Option.map_eq_some_iff.mp h
      exact toNatWithin?_lt hn
    · obtain ⟨n, hn, rfl⟩ := Option.map_eq_some_iff.mp h
      exact toNatWithin?_lt hn

end Text

theorem Json.Readable.orEmpty {v : Value} (h : Json.Readable v) : Json.Readable v.orEmpty := by
  unfold Value.orEmpty
  split
  · exact h
  · exact .text Text.unpaired_nil

theorem toNat_lt {n : Int} {bound : Nat} (h : n.natAbs < bound) : n.toNat < bound := by omega

/-- A line number has no more digits than are read, whatever it was read from. -/
theorem Value.toLine_lt {v : Value} (hv : Json.Readable v) {n : Nat} (h : v.toLine = .ok n) :
    n < 10 ^ digitLimit := by
  have hzero : 0 < 10 ^ digitLimit := Nat.pow_pos (by decide)
  cases hv with
  | int hn =>
    obtain rfl := Except.ok.inj h
    exact toNat_lt hn
  | bool b =>
    obtain rfl := Except.ok.inj h
    have hone : 1 < 10 ^ digitLimit := Nat.one_lt_pow (by decide) (by decide)
    cases b
    · exact hzero
    · exact hone
  | @text t ht =>
    obtain rfl := Except.ok.inj h
    cases hn : t.toInt? with
    | none => exact hzero
    | some n => exact toNat_lt (Text.toInt?_lt hn)
  | @float x hx =>
    cases x with
    | infinite negative => simp [Value.toLine] at h
    | nan =>
      obtain rfl := Except.ok.inj h
      exact hzero
    | finite negative m e =>
      obtain rfl := Except.ok.inj h
      cases hn : (Binary64.finite negative m e).truncate? with
      | none => exact hzero
      | some n => exact toNat_lt (hx n hn)
  | _ =>
    obtain rfl := Except.ok.inj h
    exact hzero

/-- A path as it is stored. -/
structure Path.Normal (p : Text) : Prop where
  canonical : Path.canonical p = p
  unpaired : p.Unpaired

theorem Value.toCanonicalPath_normal {v : Value} (hv : Json.Readable v) {p : Text}
    (h : v.toCanonicalPath = .ok p) : Path.Normal p := by
  have hgiven := hv.orEmpty
  unfold Value.toCanonicalPath at h
  split at h
  · next t ht =>
    rw [ht] at hgiven
    cases hgiven with
    | text hunpaired =>
      obtain rfl := Except.ok.inj h
      exact ⟨Path.canonical_canonical t, Path.canonical_unpaired hunpaired⟩
  · simp at h

/-! ## Normal findings -/

structure Location.Normal (l : Location) : Prop where
  file : Path.Normal l.file
  line : ∃ n : Nat, l.line = n ∧ n < 10 ^ digitLimit

/-- A finding as it is stored, with texts for message and identifier. -/
structure Finding.Normal (f : Finding) : Prop where
  file : Path.Normal f.file
  message : ∃ t : Text, f.message = .text t ∧ t.Unpaired
  backtrace : ∀ l ∈ f.backtrace, l.Normal
  id : ∃ t : Text, f.id = .text t ∧ t.Unpaired
  shown : f.hidden = false

namespace Tree

theorem toLocation_normal {file line : Value} (hfile : Json.Readable file) (hline : Json.Readable line)
    {l : Location} (h : toLocation file line = .ok l) : l.Normal := by
  unfold toLocation at h
  split at h
  · simp at h
  · next p hp =>
    split at h
    · simp at h
    · next n hn =>
      obtain rfl := Except.ok.inj h
      exact ⟨Value.toCanonicalPath_normal hfile hp, n, rfl, Value.toLine_lt hline hn⟩

theorem toLocations_normal {pairs : List (Value × Value)}
    (hpairs : ∀ p ∈ pairs, Json.Readable p.1 ∧ Json.Readable p.2) {ls : List Location}
    (h : toLocations pairs = .ok ls) : ∀ l ∈ ls, l.Normal := by
  intro l hl
  obtain ⟨p, hp, hlocation⟩ := exists_of_mem_toLocations h hl
  obtain ⟨hfile, hline⟩ := hpairs p hp
  exact toLocation_normal hfile hline hlocation

end Tree

namespace Convert

theorem forall_fieldOf {P : Value → Prop} (hnull : P .null) {fields : List (Text × Value)}
    (h : ∀ f ∈ fields, P f.2) (key : String) : P (fieldOf fields key) := by
  unfold fieldOf Value.field?
  cases hf : fields.find? fun f => f.1 = Text.ofString key with
  | none => exact hnull
  | some f => exact h f (List.mem_of_find?_eq_some hf)

theorem fieldOf_readable {fields : List (Text × Value)} (h : ∀ f ∈ fields, Json.Readable f.2)
    (key : String) : Json.Readable (fieldOf fields key) :=
  forall_fieldOf .null h key

theorem locationOf_readable {v : Value} (hv : Json.Readable v) {p : Value × Value}
    (h : locationOf v = .ok p) : Json.Readable p.1 ∧ Json.Readable p.2 := by
  cases hv with
  | object hfields =>
    obtain rfl := Except.ok.inj h
    refine ⟨(fieldOf_readable hfields _).orEmpty, ?_⟩
    dsimp only
    split
    · exact fieldOf_readable hfields _
    · exact .int (Nat.pow_pos (by decide))
  | _ => simp [locationOf] at h

theorem mapM_locationOf_readable {vs : List Value} (hvs : ∀ v ∈ vs, Json.Readable v)
    {pairs : List (Value × Value)} (h : vs.mapM locationOf = .ok pairs) :
    ∀ p ∈ pairs, Json.Readable p.1 ∧ Json.Readable p.2 := by
  induction vs generalizing pairs with
  | nil =>
    obtain rfl := Except.ok.inj h
    simp
  | cons v vs ih =>
    rw [List.forall_mem_cons] at hvs
    rw [List.mapM_cons] at h
    cases hp : locationOf v with
    | error e => simp [hp, bind, Except.bind] at h
    | ok p =>
      cases hps : vs.mapM locationOf with
      | error e => simp [hp, hps, bind, Except.bind] at h
      | ok ps =>
        rw [hp, hps] at h
        obtain rfl := Except.ok.inj h
        exact List.forall_mem_cons.mpr ⟨locationOf_readable hvs.1 hp, ih hvs.2 hps⟩

theorem locationsOf_readable {v : Value} (hv : Json.Readable v) {pairs : List (Value × Value)}
    (h : locationsOf v = .ok pairs) : ∀ p ∈ pairs, Json.Readable p.1 ∧ Json.Readable p.2 := by
  unfold locationsOf at h
  split at h
  · obtain rfl := Except.ok.inj h
    simp
  · cases hv with
    | list hitems => exact mapM_locationOf_readable hitems h
    | _ => simp at h

/-- What holds of all that is read out of what can be encoded holds of the list of items. -/
theorem readItems_closed {Q : Text → Prop} {P : Nat → Value → Prop} (hP : Json.Closed Q P)
    (hQ : ∀ t : Text, t.isEncodable → Q t) {content : List UInt8} {items : List Value}
    (h : readItems content = .ok items) : items = [] ∨ P depthLimit (.list items) := by
  unfold readItems at h
  split at h
  · simp at h
  · next t ht =>
    split at h
    · simp at h
    · next items' hread =>
      obtain rfl := Except.ok.inj h
      exact .inr (hP.read (hQ t (Utf8.isEncodable_of_decode? ht)) hread)
    · obtain rfl := Except.ok.inj h
      exact .inl rfl

theorem readItems_readable {content : List UInt8} {items : List Value}
    (h : readItems content = .ok items) : ∀ item ∈ items, Json.Readable item := by
  rcases readItems_closed Json.closed_readable (fun _ => id) h with rfl | hitems
  · exact fun item hitem => absurd hitem List.not_mem_nil
  · exact hitems.items

theorem readItems_bounded {content : List UInt8} {items : List Value} (h : readItems content = .ok items) :
    ∀ item ∈ items, Json.Bounded (984 + 3) item := by
  rcases readItems_closed Json.closed_bounded (fun _ _ => trivial) h with rfl | hitems
  · exact fun item hitem => absurd hitem List.not_mem_nil
  · cases hitems with
    | list hitems => exact hitems

/-- Message and identifier of the item are texts or count as not given. -/
def HasTexts (item : Value) : Prop :=
  ∀ fields, item = .object fields → ∀ key ∈ ["msg", "id"], ∃ t, (fieldOf fields key).orEmpty = .text t

theorem Reports.hasTexts {item : Value} {f : Finding} (h : Reports item f) (htexts : HasTexts item)
    (policy : PathPolicy) : (Report.Entry.ofFinding policy f).HasTexts := by
  obtain ⟨fields, _, rfl, -, hy⟩ := h.fields
  obtain ⟨msg, hmsg⟩ := htexts fields rfl "msg" (by simp)
  obtain ⟨id, hid⟩ := htexts fields rfl "id" (by simp)
  exact ⟨⟨id, hy.id.trans hid⟩, msg, hy.message.trans hmsg⟩

/-- The locations that an item reports are normal, whatever else it holds. -/
theorem Reports.backtrace_normal {item : Value} {f : Finding} (h : Reports item f)
    (hitem : Json.Readable item) : ∀ l ∈ f.backtrace, l.Normal := by
  obtain ⟨fields, backtrace, rfl, hlocations, hy⟩ := h.fields
  exact Tree.toLocations_normal
    (locationsOf_readable (fieldOf_readable hitem.fields _) hlocations) hy.backtrace

/-- What is read from a findings file reports normal findings. -/
theorem Reports.normal {item : Value} {f : Finding} (h : Reports item f) (hitem : Json.Readable item)
    (htexts : HasTexts item) : f.Normal := by
  have hbacktrace := h.backtrace_normal hitem
  obtain ⟨fields, backtrace, rfl, -, hy⟩ := h.fields
  have htext : ∀ key ∈ ["msg", "id"],
      ∃ t : Text, (fieldOf fields key).orEmpty = .text t ∧ t.Unpaired := by
    intro key hkey
    obtain ⟨t, ht⟩ := htexts fields rfl key hkey
    have hreadable := (fieldOf_readable hitem.fields key).orEmpty
    rw [ht] at hreadable
    cases hreadable with
    | text hunpaired => exact ⟨t, ht, hunpaired⟩
  obtain ⟨message, hmessage⟩ := htext "msg" (by simp)
  obtain ⟨id, hid⟩ := htext "id" (by simp)
  exact ⟨Value.toCanonicalPath_normal (fieldOf_readable hitem.fields _).orEmpty hy.file,
    ⟨message, hy.message.trans hmessage.1, hmessage.2⟩, hbacktrace, ⟨id, hy.id.trans hid.1, hid.2⟩,
    hy.shown⟩

end Convert
end Findings
