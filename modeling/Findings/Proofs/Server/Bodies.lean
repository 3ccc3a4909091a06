import Findings.Proofs.Json.Rereading
import Findings.Proofs.Tree.Stored
import Findings.Server.Body

/-!
# What a body is read as

Readings of fields are put together with all that is wrong; there is a result only if every one of them has
one (`apply_eq_ok`, `mem_of_collect`). So a body that is read as a report gives a report of texts and
integers, whatever else it holds (`readReport_ofTexts`), and the integers can be written out again
(`readReport_legible`).
-/

namespace Findings

namespace Validation

/-! ## Integers -/

theorem legible_of_word {n : Int} (h : -9223372036854775808 ≤ n ∧ n ≤ 9223372036854775807) : Legible n := by
  have hpow : 10 ^ 19 ≤ 10 ^ digitLimit := Nat.pow_le_pow_right (by decide) (by decide)
  rw [legible_iff]
  omega

theorem readPlain_legible {t : Text} {n : Int} (h : readPlain t = .ok n) : Legible n := by
  unfold readPlain at h
  dsimp only at h
  generalize (if t.startsWithChar '-' then t.drop 1 else t) = body at h
  have hdigits : ∀ d ∈ (body.takeWhile CodePoint.isAsciiDigit).map fun c => c.val - 0x30, d < 10 := by
    refine List.forall_mem_map.mpr fun c hc => ?_
    have hdigit := List.mem_takeWhile_imp hc
    simp only [CodePoint.isAsciiDigit, Bool.and_eq_true, decide_eq_true_eq] at hdigit
    omega
  split_ifs at h with hnone hzero hone hlimit hrest hnegative
  · obtain rfl := Except.ok.inj h
    decide
  all_goals
    obtain rfl := Except.ok.inj h
    have hlt := Json.readDigits_lt_limit hdigits (by rw [List.length_map]; omega)
    rw [legible_iff]
    omega

theorem asInt_legible {depth : Nat} {v : Value} (hv : Json.Bounded depth v) {n : Int} (h : asInt v = .ok n) :
    Legible n := by
  unfold asInt at h
  split at h
  · obtain rfl := Except.ok.inj h
    cases hv with
    | int hn => exact legible_iff.mpr hn
  · next b =>
    obtain rfl := Except.ok.inj h
    cases b <;> decide
  · unfold readNumeral at h
    dsimp only at h
    split at h
    · simp at h
    · exact readPlain_legible h
  · split at h
    · simp at h
    · split_ifs at h
      split at h
      · next m hm =>
        obtain rfl := Except.ok.inj h
        unfold wordOfWhole? at hm
        split at hm
        · split_ifs at hm with hrange
          obtain rfl := Option.some.inj hm
          simp only [Bool.and_eq_true, decide_eq_true_eq] at hrange
          exact legible_of_word ⟨hrange.1.le, hrange.2⟩
        · simp at hm
      · simp at h
  · simp at h

theorem asNatural_legible {depth : Nat} {v : Value} (hv : Json.Bounded depth v) {n : Int}
    (h : asNatural v = .ok n) : Legible n := by
  unfold asNatural at h
  split at h
  · simp at h
  · next m hm =>
    split_ifs at h
    obtain rfl := Except.ok.inj h
    exact asInt_legible hv hm

/-! ## Readings -/

variable {α β : Type}

theorem Checked.apply_eq_ok {f : Checked (α → β)} {a : Checked α} {b : β} (h : f.apply a = .ok b) :
    ∃ g x, f = .ok g ∧ a = .ok x ∧ g x = b := by
  cases f with
  | error is => cases a <;> simp [Checked.apply] at h
  | ok g =>
    cases a with
    | error is => simp [Checked.apply] at h
    | ok x => exact ⟨g, x, rfl, rfl, Except.ok.inj h⟩

theorem Checked.map_eq_ok {f : α → β} {a : Checked α} {b : β} (h : a.map f = .ok b) :
    ∃ x, a = .ok x ∧ f x = b := by
  cases a with
  | error is => simp [Except.map] at h
  | ok x => exact ⟨x, rfl, Except.ok.inj h⟩

theorem Checked.mem_of_collect {readings : List (Checked α)} {xs : List α}
    (h : collect readings = .ok xs) {x : α} (hx : x ∈ xs) : .ok x ∈ readings := by
  induction readings generalizing xs with
  | nil =>
    obtain rfl := Except.ok.inj h
    exact absurd hx List.not_mem_nil
  | cons a as ih =>
    obtain ⟨g, rest, hfirst, hrest, rfl⟩ := apply_eq_ok h
    obtain ⟨first, rfl, rfl⟩ := map_eq_ok hfirst
    rcases List.mem_cons.mp hx with rfl | hx
    · exact List.mem_cons_self
    · exact List.mem_cons_of_mem _ (ih hrest hx)

/-- A field is read, or its default taken. -/
theorem field_eq_ok {fields : List (Text × Value)} {place : List Text} {key : Text}
    {read : List Text → Value → Checked α} {default? : Option α} {a : α}
    (h : field fields place key read default? = .ok a) :
    (∃ v, Value.field? fields key = some v ∧ read (place ++ [key]) v = .ok a) ∨ default? = some a := by
  unfold field at h
  split at h
  · next v hv => exact .inl ⟨v, hv, h⟩
  · exact .inr (congrArg some (Except.ok.inj h))
  · simp at h

theorem checkAt_eq_ok {place : List Text} {v : Value} {read : Value → Except Fault α} {a : α}
    (h : checkAt place read v = .ok a) : read v = .ok a := by
  unfold checkAt at h
  split at h <;> simp_all

end Validation

namespace Server

open Validation

/-- Whatever octets a body has, what is read from it is bounded. -/
theorem readBody_bounded {octets : List UInt8} {v : Value} (h : readBody octets = .ok v) :
    Json.Bounded depthLimit v := by
  unfold readBody at h
  split_ifs at h
  split at h
  · simp at h
  · split at h
    · next hread =>
      obtain rfl := Except.ok.inj h
      exact Json.closed_bounded.read trivial hread
    · simp at h
    · simp at h

theorem readFields_eq_ok {α : Type} {read : List (Text × Value) → Checked α} {v : Value} {a : α}
    (h : readFields read v = .ok a) : ∃ fields, v = .object fields ∧ read fields = .ok a := by
  unfold readFields objectAt at h
  cases v with
  | object fields => exact ⟨fields, rfl, h⟩
  | _ => simp at h

theorem readLocation_eq_ok {place : List Text} {v : Value} {p : Value × Value}
    (h : readLocation place v = .ok p) :
    ∃ fields file line, v = .object fields ∧ p = (.text file, .int line) ∧
      field fields place (Text.ofString "line") (checkAt · asNatural) (some 0) = .ok line := by
  unfold readLocation objectAt at h
  cases v with
  | object fields =>
    obtain ⟨g, line, hfile, hline, rfl⟩ := Checked.apply_eq_ok h
    obtain ⟨file, -, rfl⟩ := Checked.map_eq_ok hfile
    exact ⟨fields, file, line, rfl, rfl, hline⟩
  | _ => simp at h

/-- Each location is read from an item of a list. -/
theorem readBacktrace_eq_ok {place : List Text} {v : Value} {ps : List (Value × Value)}
    (h : readBacktrace place v = .ok ps) :
    ∃ vs, v = .list vs ∧ ∀ p ∈ ps, ∃ item ∈ vs, ∃ place, readLocation place item = .ok p := by
  unfold readBacktrace at h
  cases v with
  | list vs =>
    refine ⟨vs, rfl, fun p hp => ?_⟩
    obtain ⟨q, hq, hlocation⟩ := List.mem_map.mp (Checked.mem_of_collect h hp)
    exact ⟨q.1, (List.mem_zipIdx' hq).2 ▸ List.getElem_mem _, _, hlocation⟩
  | _ => simp at h

/-- The parts of a report are read from fields of the body. -/
theorem readReport_eq_ok {v : Value} {r : Tree.Report} (h : readReport v = .ok r) :
    ∃ fields file severity message id, v = .object fields ∧
      r = { file := .text file, severity := .text severity, message := .text message, id := .text id
            backtrace := r.backtrace } ∧
      field fields bodyPlace (Text.ofString "backtrace") readBacktrace (some []) = .ok r.backtrace := by
  obtain ⟨fields, rfl, h⟩ := readFields_eq_ok h
  obtain ⟨withId, backtrace, hid, hbacktrace, rfl⟩ := Checked.apply_eq_ok h
  obtain ⟨withMessage, id, hmessage, -, rfl⟩ := Checked.apply_eq_ok hid
  obtain ⟨withSeverity, message, hseverity, -, rfl⟩ := Checked.apply_eq_ok hmessage
  obtain ⟨withFile, severity, hfile, -, rfl⟩ := Checked.apply_eq_ok hseverity
  obtain ⟨file, -, rfl⟩ := Checked.map_eq_ok hfile
  exact ⟨fields, file, severity, message, id, rfl, rfl, hbacktrace⟩

/-- A body is read as a report with texts. -/
theorem readReport_ofTexts {v : Value} {r : Tree.Report} (h : readReport v = .ok r) : r.OfTexts := by
  obtain ⟨fields, file, severity, message, id, -, hr, hbacktrace⟩ := readReport_eq_ok h
  refine ⟨⟨file, by rw [hr]⟩, ⟨severity, by rw [hr]⟩, ⟨message, by rw [hr]⟩, ⟨id, by rw [hr]⟩, fun p hp => ?_⟩
  rcases field_eq_ok hbacktrace with ⟨v, -, hv⟩ | hdefault
  · obtain ⟨vs, -, hitems⟩ := readBacktrace_eq_ok hv
    obtain ⟨item, -, place, hlocation⟩ := hitems p hp
    obtain ⟨-, file, line, -, hp, -⟩ := readLocation_eq_ok hlocation
    exact ⟨file, line, hp⟩
  · rw [← Option.some.inj hdefault] at hp
    exact absurd hp List.not_mem_nil

theorem bounded_field? {depth : Nat} {fields : List (Text × Value)}
    (h : Json.Bounded (depth + 1) (.object fields)) {key : Text} {v : Value}
    (hv : Value.field? fields key = some v) : Json.Bounded depth v := by
  obtain ⟨f, hf, rfl⟩ := Option.map_eq_some_iff.mp hv
  cases h with
  | object hfields => exact hfields f (List.mem_of_find?_eq_some hf)

theorem readLocation_legible {depth : Nat} {place : List Text} {v : Value} (hv : Json.Bounded depth v)
    {p : Value × Value} (h : readLocation place v = .ok p) : ∀ n, p.2 = .int n → Legible n := by
  obtain ⟨fields, file, line, rfl, rfl, hline⟩ := readLocation_eq_ok h
  rintro n ⟨⟩
  rcases field_eq_ok hline with ⟨v, hv', hread⟩ | hdefault
  · have hfields : ∃ d, depth = d + 1 := by
      cases hv with
      | object => exact ⟨_, rfl⟩
    obtain ⟨d, rfl⟩ := hfields
    exact asNatural_legible (bounded_field? hv hv') (checkAt_eq_ok hread)
  · obtain rfl := Option.some.inj hdefault
    decide

/-- All lines of a report that is read from a bounded body can be written out. -/
theorem readReport_legible {depth : Nat} {v : Value} (hv : Json.Bounded depth v) {r : Tree.Report}
    (h : readReport v = .ok r) : r.LegibleLines := by
  obtain ⟨fields, -, -, -, -, rfl, -, hbacktrace⟩ := readReport_eq_ok h
  intro p hp
  rcases field_eq_ok hbacktrace with ⟨v, hv', hread⟩ | hdefault
  · obtain ⟨vs, rfl, hitems⟩ := readBacktrace_eq_ok hread
    obtain ⟨item, hitem, place, hlocation⟩ := hitems p hp
    cases hv with
    | object hfields =>
      cases bounded_field? (.object hfields) hv' with
      | list hitems => exact readLocation_legible (hitems item hitem) hlocation
  · rw [← Option.some.inj hdefault] at hp
    exact absurd hp List.not_mem_nil

end Server
end Findings
