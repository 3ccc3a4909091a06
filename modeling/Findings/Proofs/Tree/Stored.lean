import Findings.Proofs.Store.Representation
import Findings.Proofs.Text.Numerals
import Findings.Proofs.Tree.Steps

/-!
# What holds of all that a tree stores

A run adds to the store only what its reports describe, so what is true of every finding that they yield is
true of all findings stored (`run_filed`). All paths of such findings are canonical (`run_located`). If all
reports have texts, or texts without surrogates, so have the findings stored (`run_hasTexts`,
`run_encodable`). The store itself stays sound on every run, refused bulk changes included, after which flags
and mask may disagree (`run_sound`).
-/

namespace Findings

/-- No surrogate is in the value, if it is a text. -/
def Value.Encodable (v : Value) : Prop := ∀ t, v = .text t → t.isEncodable

/-- Label, message and identifier of the finding are texts. -/
structure Finding.HasTexts (f : Finding) : Prop where
  label : ∃ t, f.label = .text t
  message : ∃ t, f.message = .text t
  id : ∃ t, f.id = .text t

/-- No text of the finding has a surrogate. -/
structure Finding.Encodable (f : Finding) : Prop where
  file : f.file.isEncodable
  label : f.label.Encodable
  message : f.message.Encodable
  id : f.id.Encodable
  backtrace : ∀ l ∈ f.backtrace, l.file.isEncodable

/-- All lines of the finding can be written out. -/
def Finding.LegibleLines (f : Finding) : Prop := ∀ l ∈ f.backtrace, Legible l.line

/-- The paths of the finding are canonical. -/
structure Finding.Located (f : Finding) : Prop where
  file : Path.canonical f.file = f.file
  backtrace : ∀ l ∈ f.backtrace, Path.canonical l.file = l.file

theorem Finding.hasTexts_content_iff {f : Finding} : f.content.HasTexts ↔ f.HasTexts :=
  ⟨fun h => ⟨h.label, h.message, h.id⟩, fun h => ⟨h.label, h.message, h.id⟩⟩

theorem Finding.encodable_content_iff {f : Finding} : f.content.Encodable ↔ f.Encodable :=
  ⟨fun h => ⟨h.file, h.label, h.message, h.id, h.backtrace⟩,
    fun h => ⟨h.file, h.label, h.message, h.id, h.backtrace⟩⟩

theorem Finding.located_content_iff {f : Finding} : f.content.Located ↔ f.Located :=
  ⟨fun h => ⟨h.file, h.backtrace⟩, fun h => ⟨h.file, h.backtrace⟩⟩

theorem Value.canonical_toCanonicalPath {v : Value} {p : Text} (h : v.toCanonicalPath = .ok p) :
    Path.canonical p = p := by
  unfold toCanonicalPath at h
  cases hgiven : v.orEmpty with
  | text t =>
    obtain rfl : Path.canonical t = p := by simpa [hgiven] using h
    exact Path.canonical_canonical t
  | _ => simp [hgiven] at h

namespace Tree

/-! ## Findings -/

section Filed

variable {P : Finding → Prop}

theorem ViewStep.filed_findings {v v' : Filtered} {op : Op} (hs : ViewStep v op v')
    (hop : ∀ r f, op = .add r → r.Yields f → P f.content) (h : v.store.Filed P) :
    v'.store.Filed P := by
  cases hs with
  | same _ _ => exact h
  | @filed r f hy => exact (h.insert (hop r f rfl hy)).of_content_eq (Store.content_applyMask _ _ _)
  | cleared => exact Store.filed_empty _
  | category code shown => exact h.of_content_eq (v.content_setMask code shown)
  | categories entries => exact h.of_content_eq (v.content_setMasks entries)

/-- What is true of the findings that the reports of a run yield stays true of all findings stored. -/
theorem run_filed {t : Tree} {ops : List Op}
    (hops : ∀ r f, .add r ∈ ops → r.Yields f → P f.content) (h : t.store.Filed P) :
    (t.run ops).store.Filed P := by
  induction ops generalizing t with
  | nil => exact h
  | cons op ops ih =>
    refine ih (fun r f hmem => hops r f (List.mem_cons_of_mem op hmem))
      ((view_step t op).filed_findings (fun r f hop => ?_) h)
    subst hop
    exact hops r f List.mem_cons_self

end Filed

/-! ## Paths -/

theorem toLocation_canonical {file line : Value} {l : Location} (h : toLocation file line = .ok l) :
    Path.canonical l.file = l.file :=
  Value.canonical_toCanonicalPath (toLocation_file h)

theorem Report.Yields.located {r : Report} {f : Finding} (h : r.Yields f) : f.Located := by
  constructor
  · exact Value.canonical_toCanonicalPath h.file
  · intro l hl
    obtain ⟨p, -, hlocation⟩ := exists_of_mem_toLocations h.backtrace hl
    exact toLocation_canonical hlocation

/-- All paths that a tree stores are canonical. -/
theorem run_located {t : Tree} (h : t.store.Filed Finding.Located) (ops : List Op) :
    (t.run ops).store.Filed Finding.Located :=
  run_filed (fun _ _ _ hy => Finding.located_content_iff.mpr hy.located) h

/-! ## Texts -/

/-- File, label, message and identifier of the report are texts, and each location is a text and an integer. -/
structure Report.OfTexts (r : Report) : Prop where
  file : ∃ t, r.file = .text t
  severity : ∃ t, r.severity = .text t
  message : ∃ t, r.message = .text t
  id : ∃ t, r.id = .text t
  backtrace : ∀ p ∈ r.backtrace, ∃ file line, p = (.text file, .int line)

/-- No text of the report has a surrogate. -/
structure Report.Encodable (r : Report) : Prop where
  file : r.file.Encodable
  severity : r.severity.Encodable
  message : r.message.Encodable
  id : r.id.Encodable
  backtrace : ∀ p ∈ r.backtrace, p.1.Encodable

/-- All lines of the report that are integers can be written out. -/
def Report.LegibleLines (r : Report) : Prop := ∀ p ∈ r.backtrace, ∀ n, p.2 = .int n → Legible n

/-- A report with texts is always filed. -/
theorem add_ofTexts (t : Tree) {r : Report} (h : r.OfTexts) :
    ∃ f log, r.Yields f ∧
      t.add r = .ok { t with view := file t.view f } (t.store.nextRef f.file) log := by
  obtain ⟨path, hfile⟩ := h.file
  obtain ⟨severity, hseverity⟩ := h.severity
  refine add_filed t hfile hseverity fun p hp => ?_
  obtain ⟨path, line, rfl⟩ := h.backtrace p hp
  exact ⟨⟨Path.canonical path, line.toNat⟩,
    by simp [toLocation, Value.toCanonicalPath_text, Value.toLine]⟩

theorem Report.Yields.hasTexts {r : Report} {f : Finding} (h : r.Yields f) (hr : r.OfTexts) :
    f.HasTexts := by
  obtain ⟨severity, hseverity⟩ := hr.severity
  obtain ⟨message, hmessage⟩ := hr.message
  obtain ⟨id, hid⟩ := hr.id
  exact ⟨⟨severity, by rw [h.label, hseverity]⟩, ⟨message, h.message.trans hmessage⟩,
    ⟨id, h.id.trans hid⟩⟩

/-- What a tree stores has texts, if all that is added has. -/
theorem run_hasTexts {t : Tree} (h : t.store.Filed Finding.HasTexts) {ops : List Op}
    (hops : ∀ r, .add r ∈ ops → r.OfTexts) : (t.run ops).store.Filed Finding.HasTexts :=
  run_filed (fun r _ hr hy => Finding.hasTexts_content_iff.mpr (hy.hasTexts (hops r hr))) h

theorem Report.Yields.legibleLines {r : Report} {f : Finding} (h : r.Yields f) (hr : r.OfTexts)
    (hlines : r.LegibleLines) : f.LegibleLines := by
  intro l hl
  obtain ⟨p, hp, hlocation⟩ := exists_of_mem_toLocations h.backtrace hl
  obtain ⟨file, n, rfl⟩ := hr.backtrace p hp
  obtain rfl : (⟨Path.canonical file, n.toNat⟩ : Location) = l := by
    simpa [toLocation, Value.toCanonicalPath_text, Value.toLine] using hlocation
  have hle : (n.toNat : Int).natAbs ≤ n.natAbs := by omega
  exact legible_iff.mpr (hle.trans_lt (legible_iff.mp (hlines _ hp n rfl)))

/-- What a tree stores has lines that can be written out, if all that is added has. -/
theorem run_legibleLines {t : Tree} (h : t.store.Filed Finding.LegibleLines) {ops : List Op}
    (hops : ∀ r, .add r ∈ ops → r.OfTexts ∧ r.LegibleLines) :
    (t.run ops).store.Filed Finding.LegibleLines :=
  run_filed (fun r _ hr hy => hy.legibleLines (hops r hr).1 (hops r hr).2) h

theorem isEncodable_toCanonicalPath {v : Value} (hv : v.Encodable) {p : Text}
    (h : v.toCanonicalPath = .ok p) : p.isEncodable := by
  unfold Value.toCanonicalPath at h
  cases hgiven : v.orEmpty with
  | text t =>
    obtain rfl : Path.canonical t = p := by simpa [hgiven] using h
    refine Path.all_canonical (by decide) (by decide) ?_
    unfold Value.orEmpty at hgiven
    split_ifs at hgiven
    · exact hv t hgiven
    · obtain rfl := Value.text.inj hgiven
      rfl
  | _ => simp [hgiven] at h

theorem isEncodable_toLocation {p : Value × Value} (hp : p.1.Encodable) {l : Location}
    (h : toLocation p.1 p.2 = .ok l) : l.file.isEncodable :=
  isEncodable_toCanonicalPath hp (toLocation_file h)

theorem Report.Yields.encodable {r : Report} {f : Finding} (h : r.Yields f) (hr : r.Encodable) :
    f.Encodable := by
  refine ⟨isEncodable_toCanonicalPath hr.file h.file, ?_, h.message ▸ hr.message, h.id ▸ hr.id, ?_⟩
  · rw [h.label]
    split
    · intro t ht
      obtain rfl := Value.text.inj ht
      cases f.category <;> decide
    · exact hr.severity
  · intro l hl
    obtain ⟨p, hp, hlocation⟩ := exists_of_mem_toLocations h.backtrace hl
    exact isEncodable_toLocation (hr.backtrace p hp) hlocation

/-- What a tree stores can be encoded, if all that is added can. -/
theorem run_encodable {t : Tree} (h : t.store.Filed Finding.Encodable) {ops : List Op}
    (hops : ∀ r, .add r ∈ ops → r.Encodable) : (t.run ops).store.Filed Finding.Encodable :=
  run_filed (fun r _ hr hy => Finding.encodable_content_iff.mpr (hy.encodable (hops r hr))) h

/-! ## Files and flags -/

open Filters in
theorem ViewStep.sound {v v' : Filtered} {op : Op} (hs : ViewStep v op v') (h : Sound v.store) :
    Sound v'.store := by
  cases hs with
  | same _ _ => exact h
  | @filed r f hy =>
    have hinsert := h.insert hy.located.file
    exact hinsert.of_content_eq (Store.content_applyMask _ _ _) (hinsert.flags.applyMask _ _)
  | cleared => exact sound_empty _
  | category code shown => exact h.setMask code shown
  | categories entries => exact h.setMasks entries

theorem run_sound {t : Tree} (h : Filters.Sound t.store) (ops : List Op) :
    Filters.Sound (t.run ops).store := by
  induction ops generalizing t with
  | nil => exact h
  | cons op ops ih => exact ih ((view_step t op).sound h)

end Tree
end Findings
