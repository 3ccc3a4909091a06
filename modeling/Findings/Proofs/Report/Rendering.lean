import Findings.Proofs.Json.Rereading
import Findings.Report.Export

/-!
# What can be rendered

Entries whose identifiers and messages are texts are rendered in each format, unless a line number in them has too
many digits (`render_eq`); that is the only failure then. Other entries are rendered as JSON if all integers in
them can be written out (`render_json`), and in no other format (`render_lacking`). So of entries with nothing too
long in them a format that needs texts is refused just when one lacks them (`exists_render_error_iff`).
-/

namespace Findings.Report

/-- The entry with its texts for values. -/
def Entry.values (e : Entry Text) : Entry Value := ⟨e.file, e.severity, .text e.id, .text e.msg, e.locations⟩

/-- Identifier and message of the entry are texts. -/
def Entry.HasTexts (e : Entry Value) : Prop := (∃ t, e.id = .text t) ∧ ∃ t, e.msg = .text t

theorem Entry.HasTexts.exists_values {e : Entry Value} (h : e.HasTexts) : ∃ e' : Entry Text, e = e'.values := by
  obtain ⟨file, severity, id, msg, locations⟩ := e
  obtain ⟨⟨id, rfl⟩, msg, rfl⟩ := h
  exact ⟨⟨file, severity, id, msg, locations⟩, rfl⟩

theorem exists_map_values {es : List (Entry Value)} (h : ∀ e ∈ es, e.HasTexts) :
    ∃ es' : List (Entry Text), es = es'.map Entry.values := by
  induction es with
  | nil => exact ⟨[], rfl⟩
  | cons e es ih =>
    rw [List.forall_mem_cons] at h
    obtain ⟨e', rfl⟩ := h.1.exists_values
    obtain ⟨es', rfl⟩ := ih h.2
    exact ⟨e' :: es', rfl⟩

/-- The lines of an entry are those of the finding. -/
theorem legible_ofFinding {policy : PathPolicy} {f : Finding} :
    (Entry.ofFinding policy f).Legible ↔ ∀ l ∈ f.backtrace, Findings.Legible l.line :=
  List.forall_mem_map

/-! ## Formats that need texts -/

theorem texts_values (format : Format) (e : Entry Text) :
    e.values.texts format = if e.Legible then .ok e else .error .integerTooLong := rfl

theorem texts_lacking (format : Format) {e : Entry Value} (h : ¬e.HasTexts) :
    e.texts format = .error (.fieldNotText format) := by
  unfold Entry.texts
  split
  · next id msg hid hmsg => exact absurd ⟨⟨id, hid⟩, msg, hmsg⟩ h
  · rfl

theorem mapM_texts_values (format : Format) (es : List (Entry Text)) :
    (es.map Entry.values).mapM (Entry.texts format) =
      if ∀ e ∈ es, e.Legible then .ok es else .error .integerTooLong := by
  induction es with
  | nil => rfl
  | cons e es ih =>
    rw [List.map_cons, List.mapM_cons, ih, texts_values]
    by_cases he : e.Legible
    · by_cases hes : ∀ e ∈ es, e.Legible
      · rw [if_pos he, if_pos hes, if_pos (List.forall_mem_cons.mpr ⟨he, hes⟩)]
        rfl
      · rw [if_pos he, if_neg hes, if_neg fun h => hes (List.forall_mem_cons.mp h).2]
        rfl
    · rw [if_neg he, if_neg fun h => he (List.forall_mem_cons.mp h).1]
      rfl

theorem render_text (es : List (Entry Text)) :
    render .text (es.map Entry.values) =
      if ∀ e ∈ es, e.Legible then .ok (text es) else .error .integerTooLong := by
  rw [render, mapM_texts_values]
  split_ifs <;> rfl

theorem render_xml (es : List (Entry Text)) :
    render .xml (es.map Entry.values) =
      if ∀ e ∈ es, e.Legible then .ok (xml es) else .error .integerTooLong := by
  rw [render, mapM_texts_values]
  split_ifs <;> rfl

theorem mapM_texts_lacking (format : Format) {es : List (Entry Value)} (h : ∃ e ∈ es, ¬e.HasTexts) :
    ∃ error, es.mapM (Entry.texts format) = .error error := by
  induction es with
  | nil => simp at h
  | cons e es ih =>
    rw [List.mapM_cons]
    by_cases he : e.HasTexts
    · obtain ⟨e', rfl⟩ := he.exists_values
      obtain ⟨error, herror⟩ := ih (by simpa [he] using h)
      rw [texts_values, herror]
      split_ifs <;> exact ⟨_, rfl⟩
    · exact ⟨_, by rw [texts_lacking format he]; rfl⟩

theorem render_lacking {format : Format} (hjson : format ≠ .json) {es : List (Entry Value)}
    (h : ∃ e ∈ es, ¬e.HasTexts) : ∃ error, render format es = .error error := by
  obtain ⟨error, herror⟩ := mapM_texts_lacking format h
  cases format with
  | json => exact absurd rfl hjson
  | text | xml => exact ⟨error, by rw [render, herror]; rfl⟩

theorem hasTexts_of_render {format : Format} (hjson : format ≠ .json) {es : List (Entry Value)} {report : Text}
    (h : render format es = .ok report) : ∀ e ∈ es, e.HasTexts := by
  by_contra hlacking
  push Not at hlacking
  obtain ⟨error, herror⟩ := render_lacking hjson hlacking
  simp [h] at herror

/-- A text report is written from entries with texts. -/
theorem exists_of_render_text {es : List (Entry Value)} {report : Text} (h : render .text es = .ok report) :
    ∃ es' : List (Entry Text), es = es'.map Entry.values ∧ text es' = report := by
  obtain ⟨es', rfl⟩ := exists_map_values (hasTexts_of_render (by decide) h)
  rw [render_text] at h
  split_ifs at h
  exact ⟨es', rfl, Except.ok.inj h⟩

theorem exists_of_render_xml {es : List (Entry Value)} {report : Text} (h : render .xml es = .ok report) :
    ∃ es' : List (Entry Text), es = es'.map Entry.values ∧ xml es' = report := by
  obtain ⟨es', rfl⟩ := exists_map_values (hasTexts_of_render (by decide) h)
  rw [render_xml] at h
  split_ifs at h
  exact ⟨es', rfl, Except.ok.inj h⟩

/-! ## All formats -/

theorem isLegible_entryValue {e : Entry Value} :
    (entryValue e).isLegible ↔ e.id.isLegible ∧ e.msg.isLegible ∧ e.Legible := by
  simp [entryValue, locationValue, Value.isLegible, Value.fieldsLegible, Json.areLegible_iff, Entry.Legible]

theorem render_json (es : List (Entry Value)) :
    render .json es =
      if ∀ e ∈ es, (entryValue e).isLegible then .ok (json es) else .error .integerTooLong := by
  simp only [render, Json.areLegible_iff, List.forall_mem_map]

/-- Entries with texts are rendered unless one of their lines is too long, and that is what is told then. -/
theorem render_eq (format : Format) {es : List (Entry Value)} (h : ∀ e ∈ es, e.HasTexts) :
    ∃ report, render format es = if ∀ e ∈ es, e.Legible then .ok report else .error .integerTooLong := by
  obtain ⟨es, rfl⟩ := exists_map_values h
  have hlegible : (∀ e ∈ es.map Entry.values, e.Legible) ↔ ∀ e ∈ es, e.Legible := by
    rw [List.forall_mem_map]
    rfl
  simp only [hlegible]
  cases format with
  | text => exact ⟨_, render_text es⟩
  | xml => exact ⟨_, render_xml es⟩
  | json =>
    have hvalues : (∀ e ∈ es.map Entry.values, (entryValue e).isLegible) ↔ ∀ e ∈ es, e.Legible := by
      rw [List.forall_mem_map]
      simp [isLegible_entryValue, Entry.values, Value.isLegible, Entry.Legible]
    exact ⟨_, by simp only [render_json, hvalues]; rfl⟩

/-- If nothing in them is too long, entries are refused just by a format that needs texts where one lacks them. -/
theorem exists_render_error_iff {format : Format} {es : List (Entry Value)}
    (hlegible : ∀ e ∈ es, (entryValue e).isLegible) :
    (∃ error, render format es = .error error) ↔ format ≠ .json ∧ ∃ e ∈ es, ¬e.HasTexts := by
  constructor
  · rintro ⟨error, h⟩
    refine ⟨?_, by_contra fun hnone => ?_⟩
    · rintro rfl
      rw [render_json, if_pos hlegible] at h
      simp at h
    · push Not at hnone
      obtain ⟨report, hrender⟩ := render_eq format hnone
      rw [if_pos fun e he => (isLegible_entryValue.mp (hlegible e he)).2.2, h] at hrender
      simp at hrender
  · exact fun ⟨hjson, hlacking⟩ => render_lacking hjson hlacking

/-- An entry with a line that has too many digits. -/
def overlongEntry : Entry Text := ⟨"a.c", "error", "", "m", [⟨"a.c", overlong⟩]⟩

theorem render_overlongEntry (format : Format) :
    render format ([overlongEntry].map Entry.values) = .error .integerTooLong := by
  have htexts : ∀ e ∈ [overlongEntry].map Entry.values, e.HasTexts :=
    List.forall_mem_singleton.mpr ⟨⟨_, rfl⟩, _, rfl⟩
  obtain ⟨report, hrender⟩ := render_eq format htexts
  rw [hrender, if_neg fun h => not_legible_overlong (h _ List.mem_cons_self _ List.mem_cons_self)]

end Findings.Report
