import Findings.Proofs.Json.Numbers
import Findings.Proofs.Json.Readable

/-!
# What was read can be written and read again

A value is `Bounded` if it is nested no deeper than is read, and its integers have no more digits than are read,
nor have the whole parts of its other numbers. All that is read is (`closed_bounded`), out of whatever characters.
What is bounded can be written (`Bounded.isLegible`) and read after that (`Bounded.exists_spells`), if not always
as the same: pairs of surrogates are joined, and numbers may be rounded. A list comes back with as many items
(`exists_read_list`).
-/

namespace Findings.Json

/-- Nested no deeper than `depth`, with no number of more digits than are read. -/
inductive Bounded : Nat → Value → Prop where
  | null {depth : Nat} : Bounded depth .null
  | bool {depth : Nat} (b : Bool) : Bounded depth (.bool b)
  | int {depth : Nat} {n : Int} (h : n.natAbs < 10 ^ digitLimit) : Bounded depth (.int n)
  | float {depth : Nat} {x : Binary64} (h : ∀ n, x.truncate? = some n → n.natAbs < 10 ^ digitLimit) :
      Bounded depth (.float x)
  | text {depth : Nat} (t : Text) : Bounded depth (.text t)
  | category {depth : Nat} (c : CategoryCode) : Bounded depth (.category c)
  | list {depth : Nat} {items : List Value} (h : ∀ v ∈ items, Bounded depth v) :
      Bounded (depth + 1) (.list items)
  | object {depth : Nat} {fields : List (Text × Value)} (h : ∀ f ∈ fields, Bounded depth f.2) :
      Bounded (depth + 1) (.object fields)

/-! ## What is read -/

theorem readNumber_bounded {negative : Bool} {t rest : Text} {v : Value}
    (h : readNumber negative t = .ok (v, rest)) (depth : Nat) : Bounded depth v := by
  have hreadable := (readNumber_readable h).1
  unfold readNumber at h
  split at h
  · simp at h
  · simp only at h
    split at h
    · split at h
      · simp at h
      · obtain ⟨rfl, -⟩ := Prod.mk.inj (Except.ok.inj h)
        exact .int hreadable.natAbs_lt
    · obtain ⟨rfl, -⟩ := Prod.mk.inj (Except.ok.inj h)
      cases hreadable with
      | float hlt => exact .float hlt

theorem readScalar_bounded {t rest : Text} {v : Value} (h : readScalar t = .ok (v, rest)) (depth : Nat) :
    Bounded depth v := by
  have hwords : ∀ w ∈ words, Bounded depth w.2 := by
    simp only [words, List.forall_mem_cons, List.not_mem_nil, false_implies, implies_true, and_true]
    exact ⟨.null, .bool true, .bool false, .float (by simp [Binary64.truncate?]),
      .float (by simp [Binary64.truncate?]), .float (by simp [Binary64.truncate?])⟩
  unfold readScalar at h
  split at h
  · next w v' hfind =>
    obtain ⟨rfl, -⟩ := Prod.mk.inj (Except.ok.inj h)
    exact hwords _ (List.mem_of_find?_eq_some hfind)
  · split at h
    · simp at h
    · split_ifs at h
      · exact readNumber_bounded h depth
      · exact readNumber_bounded h depth

theorem closed_bounded : Closed (fun _ => True) Bounded :=
  ⟨fun _ _ => trivial, fun h => readScalar_bounded h _, fun _ _ => .text _, .list, .object⟩

/-! ## What is written -/

theorem Bounded.isLegible {depth : Nat} {v : Value} (h : Bounded depth v) : v.isLegible := by
  induction h with
  | null | bool _ | float _ | text _ | category _ => rfl
  | int h => exact decide_eq_true (legible_iff.mpr h)
  | list _ ih => exact areLegible_iff.mpr ih
  | object _ ih => exact fieldsLegible_iff.mpr ih

theorem Bounded.exists_spells {depth : Nat} {v : Value} (h : Bounded depth v) (level : Nat) :
    ∃ v', Spells (readValue depth) (writeIndented level v) v' := by
  induction h generalizing level with
  | null => exact ⟨_, spells_word (.head _) _⟩
  | bool b => exact ⟨_, spells_bool b _⟩
  | int h => exact ⟨_, spells_ofInt (legible_iff.mpr h) _⟩
  | @float _ x _ =>
    obtain ⟨y, hy⟩ := exists_spells_writeFloat x _
    exact ⟨_, hy⟩
  | text t => exact ⟨_, spells_writeText le_of_isPrintableAscii t _⟩
  | category c => exact ⟨_, spells_writeText le_of_isPrintableAscii c.display _⟩
  | @list depth items h ih =>
    obtain ⟨values, hvalues⟩ := exists_forall₂ fun v hv => ih v hv (level + 1)
    exact ⟨_, spells_indentedList level hvalues⟩
  | @object depth fields h ih =>
    have hfields : ∀ f ∈ fields, ∃ f',
        SpellsField isPrintableAscii (readValue depth) (writeIndented (level + 1)) f f' := by
      intro f hf
      obtain ⟨v', hv'⟩ := ih f hf (level + 1)
      exact ⟨(_, v'), rfl, hv'⟩
    obtain ⟨values, hvalues⟩ := exists_forall₂ hfields
    exact ⟨_, spells_indentedObject level hvalues⟩

/-- A list of bounded values is read with as many items as were written. -/
theorem exists_read_list {depth : Nat} {items : List Value} (h : ∀ v ∈ items, Bounded depth v) :
    ∃ values, read (depth + 1) (writeIndented 0 (.list items) ++ [.ofChar '\n']) = .ok (.list values) ∧
      values.length = items.length := by
  obtain ⟨values, hvalues⟩ := exists_forall₂ fun v hv => (h v hv).exists_spells 1
  exact ⟨values, read_of_spells (spells_indentedList 0 hvalues), hvalues.length_eq.symm⟩

end Findings.Json
