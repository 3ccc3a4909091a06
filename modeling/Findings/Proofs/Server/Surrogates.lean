import Findings.Proofs.Server.Bodies
import Findings.Proofs.Server.Operations

/-!
# Bodies without surrogates

JSON can spell lone surrogates, and a body is read with them. If no string of a body has one, nothing that is
read from it has: not the report (`encodable_readReport`), not the directory (`isEncodable_readDirectory`).
-/

namespace Findings

namespace Value

mutual

/-- The texts in a value, names of fields included. -/
def texts : Value → List Text
  | text t => [t]
  | list items => textsOfItems items
  | object fields => textsOfFields fields
  | _ => []

def textsOfItems : List Value → List Text
  | [] => []
  | v :: vs => texts v ++ textsOfItems vs

def textsOfFields : List (Text × Value) → List Text
  | [] => []
  | (k, v) :: fs => k :: texts v ++ textsOfFields fs

end

/-- No text in the value has a surrogate. -/
def NoSurrogates (v : Value) : Prop := ∀ t ∈ v.texts, t.isEncodable

theorem NoSurrogates.of_item {items : List Value} (h : (list items).NoSurrogates) {v : Value}
    (hv : v ∈ items) : v.NoSurrogates := by
  intro t ht
  refine h t ?_
  rw [texts]
  clear h
  induction items with
  | nil => exact absurd hv List.not_mem_nil
  | cons first items ih =>
    rw [textsOfItems, List.mem_append]
    rcases List.mem_cons.mp hv with rfl | hv
    · exact .inl ht
    · exact .inr (ih hv)

theorem NoSurrogates.of_field {fields : List (Text × Value)} (h : (object fields).NoSurrogates)
    {key : Text} {v : Value} (hv : field? fields key = some v) : v.NoSurrogates := by
  intro t ht
  refine h t ?_
  rw [texts]
  clear h
  induction fields with
  | nil => simp [field?] at hv
  | cons first fields ih =>
    rw [textsOfFields, List.cons_append, List.mem_cons, List.mem_append]
    by_cases hkey : first.1 = key
    · obtain rfl : first.2 = v := by simpa [field?, hkey] using hv
      exact .inr (.inl ht)
    · exact .inr (.inr (ih (by simpa [field?, hkey] using hv)))

end Value

namespace Server

open Validation

/-! ## Reading a body -/

section Fields

variable {fields : List (Text × Value)} (h : (Value.object fields).NoSurrogates) {place : List Text}
include h

theorem isEncodable_field {key : Text} {default? : Option Text}
    (hdefault : ∀ t, default? = some t → t.isEncodable) {t : Text}
    (hread : field fields place key (checkAt · asText) default? = .ok t) : t.isEncodable := by
  rcases field_eq_ok hread with ⟨v, hv, ht⟩ | ht
  · obtain rfl : v = .text t := by
      cases v with
      | text t' => simpa [checkAt, asText] using ht
      | _ => simp [checkAt, asText] at ht
    exact h.of_field hv t List.mem_cons_self
  · exact hdefault t ht

theorem isEncodable_required {key : Text} {t : Text}
    (hread : field fields place key (checkAt · asText) none = .ok t) : t.isEncodable :=
  isEncodable_field h (fun _ hnone => by cases hnone) hread

theorem isEncodable_optional {key : Text} {t : Text}
    (hread : field fields place key (checkAt · asText) (some []) = .ok t) : t.isEncodable := by
  refine isEncodable_field h (fun t ht => ?_) hread
  obtain rfl := Option.some.inj ht
  rfl

end Fields

theorem encodable_readLocation {place : List Text} {v : Value} (h : v.NoSurrogates) {p : Value × Value}
    (hread : readLocation place v = .ok p) : p.1.Encodable := by
  unfold readLocation at hread
  cases v with
  | object fields =>
    obtain ⟨withFile, line, hwithFile, -, rfl⟩ := Checked.apply_eq_ok hread
    obtain ⟨file, hfile, rfl⟩ := Checked.map_eq_ok hwithFile
    rintro t ⟨⟩
    exact isEncodable_required h hfile
  | _ => simp [objectAt] at hread

theorem encodable_readBacktrace {place : List Text} {v : Value} (h : v.NoSurrogates)
    {ps : List (Value × Value)} (hread : readBacktrace place v = .ok ps) : ∀ p ∈ ps, p.1.Encodable := by
  intro p hp
  unfold readBacktrace at hread
  split at hread
  · next items =>
    obtain ⟨q, hq, hlocation⟩ := List.mem_map.mp (Checked.mem_of_collect hread hp)
    exact encodable_readLocation (h.of_item (List.fst_mem_of_mem_zipIdx hq)) hlocation
  · simp at hread

theorem encodable_readReport {v : Value} (h : v.NoSurrogates) {report : Tree.Report}
    (hread : readReport v = .ok report) : report.Encodable := by
  cases v with
  | object fields =>
    obtain ⟨withId, backtrace, hwithId, hbacktrace, rfl⟩ := Checked.apply_eq_ok hread
    obtain ⟨withMessage, id, hwithMessage, hid, rfl⟩ := Checked.apply_eq_ok hwithId
    obtain ⟨withSeverity, message, hwithSeverity, hmessage, rfl⟩ := Checked.apply_eq_ok hwithMessage
    obtain ⟨withFile, severity, hwithFile, hseverity, rfl⟩ := Checked.apply_eq_ok hwithSeverity
    obtain ⟨file, hfile, rfl⟩ := Checked.map_eq_ok hwithFile
    refine ⟨?_, ?_, ?_, ?_, ?_⟩
    · rintro t ⟨⟩
      exact isEncodable_required h hfile
    · rintro t ⟨⟩
      exact isEncodable_required h hseverity
    · rintro t ⟨⟩
      exact isEncodable_optional h hmessage
    · rintro t ⟨⟩
      exact isEncodable_optional h hid
    · rcases field_eq_ok hbacktrace with ⟨v, hv, hread⟩ | hdefault
      · exact encodable_readBacktrace (h.of_field hv) hread
      · obtain rfl := Option.some.inj hdefault
        exact fun p hp => absurd hp List.not_mem_nil
  | _ => simp [readReport, readFields, objectAt] at hread

theorem isEncodable_readDirectory {v : Value} (h : v.NoSurrogates) {directory : Text}
    (hread : readDirectory v = .ok directory) : directory.isEncodable := by
  cases v with
  | object fields => exact isEncodable_required h hread
  | _ => simp [readDirectory, readFields, objectAt] at hread

/-! ## Requests -/

namespace Request

/-- The strings of the body; one that cannot be read has none. -/
def texts (r : Request) : List Text :=
  match readBody r.body with
  | .ok v => v.texts
  | .error _ => []

/-- No string of the body has a surrogate. -/
def NoSurrogates (r : Request) : Prop := ∀ t ∈ r.texts, t.isEncodable

instance (r : Request) : Decidable r.NoSurrogates := inferInstanceAs (Decidable (∀ t ∈ _, _))

variable {r : Request} (h : r.NoSurrogates)
include h

theorem NoSurrogates.of_readBody {v : Value} (hv : readBody r.body = .ok v) : v.NoSurrogates := by
  intro t ht
  refine h t ?_
  rw [texts, hv]
  exact ht

/-- A report that is asked to be added has texts, and no surrogate in them. -/
theorem NoSurrogates.report {report : Tree.Report} (hop : r.operation? = some (.add report)) :
    report.OfTexts ∧ report.Encodable := by
  obtain ⟨-, -, hread⟩ := operation?_eq_add.mp hop
  obtain ⟨v, hv, hreport⟩ := read?_eq_some.mp hread
  exact ⟨readReport_ofTexts hreport, encodable_readReport (h.of_readBody hv) hreport⟩

theorem NoSurrogates.directory {directory : Text}
    (hop : r.operation? = some (.setCheckDirectory directory)) : directory.isEncodable := by
  obtain ⟨v, hv, hdirectory⟩ := read?_eq_some.mp (read?_of_setCheckDirectory hop)
  exact isEncodable_readDirectory (h.of_readBody hv) hdirectory

end Request

end Server
end Findings
