import Findings.Proofs.Json.Ascii
import Findings.Proofs.Report.XmlRoundTrip
import Findings.Proofs.Store.Traversal
import Findings.Proofs.Text.Utf8
import Findings.Proofs.Tree.Stored

/-!
# Reports can be encoded

Whatever the texts of findings hold, reports on them hold no surrogate: a text report has question marks
instead, an XML report leaves them out, and a JSON report is ASCII (`isEncodable_render`). Findings with texts can
be exported in each format, unless the report would have to write out a line number with too many digits
(`InTexts.exported_eq`). What this means for a tree whose reports are in texts is `exports_encodable`.
-/

namespace Findings

namespace Report

theorem isEncodable_textField (t : Text) : (textField t).isEncodable := by
  refine Text.isEncodable_flatMap fun c _ => ?_
  unfold textChar
  split_ifs with hsurrogate
  · decide
  · decide
  · decide
  · decide
  · decide
  · simpa [Text.isEncodable] using hsurrogate

theorem isEncodable_ofInt (n : Int) : (Text.ofInt n).isEncodable :=
  Json.isEncodable_of_isPrinted (Json.all_isPrinted (Json.all_ofInt n))

theorem isEncodable_textLines {e : Entry Text} {line : Text} (h : line ∈ textLines e) :
    line.isEncodable := by
  rcases List.mem_cons.mp h with rfl | h
  · refine Text.isEncodable_join (by decide) ?_
    simp [isEncodable_textField]
  · obtain ⟨l, -, rfl⟩ := List.mem_map.mp h
    simp only [textLocation, Text.isEncodable_append, isEncodable_textField, isEncodable_ofInt, and_true]
    exact ⟨by decide, by decide⟩

theorem isEncodable_text (es : List (Entry Text)) : (text es).isEncodable := by
  refine Text.isEncodable_flatMap fun line hline => ?_
  obtain ⟨e, -, hline⟩ := List.mem_flatMap.mp hline
  exact Text.isEncodable_append.mpr ⟨isEncodable_textLines hline, by decide⟩

theorem isSurrogate_of_isChar {c : CodePoint} (h : Xml.isChar c) : c.isSurrogate = false := by
  rw [← Xml.isXmlChar_eq] at h
  simp only [isXmlChar, Bool.or_eq_true, Bool.and_eq_true, decide_eq_true_eq] at h
  rw [CodePoint.isSurrogate, Bool.and_eq_false_iff, decide_eq_false_iff_not, decide_eq_false_iff_not]
  omega

theorem isEncodable_xml (es : List (Entry Text)) : (xml es).isEncodable := by
  refine List.all_eq_true.mpr fun c hc => ?_
  rw [isSurrogate_of_isChar (List.all_eq_true.mp (all_isChar_xml es) c hc)]
  rfl

theorem isEncodable_json (es : List (Entry Value)) : (json es).isEncodable :=
  Text.isEncodable_append.mpr ⟨Json.isEncodable_writeIndented _ 0, by decide⟩

/-- What is rendered can be encoded, whatever it is made of. -/
theorem isEncodable_render {format : Format} {es : List (Entry Value)} {t : Text}
    (h : render format es = .ok t) : t.isEncodable := by
  cases format with
  | json =>
    rw [render_json] at h
    split_ifs at h
    obtain rfl := Except.ok.inj h
    exact isEncodable_json es
  | text =>
    obtain ⟨es', -, rfl⟩ := exists_of_render_text h
    exact isEncodable_text es'
  | xml =>
    obtain ⟨es', -, rfl⟩ := exists_of_render_xml h
    exact isEncodable_xml es'

end Report

namespace Store

variable {s : Store}

/-- Label, message and identifier of every stored finding are texts. -/
def InTexts (s : Store) : Prop := ∀ g ∈ s.files, ∀ f ∈ g.findings, f.HasTexts

theorem Filed.inTexts (h : s.Filed Finding.HasTexts) : s.InTexts :=
  fun g hg f hf => Finding.hasTexts_content_iff.mp ((h g hg).mem f hf).2

theorem InTexts.entries_hasTexts (h : s.InTexts) (policy : PathPolicy) :
    ∀ e ∈ s.entries policy, e.HasTexts := by
  intro e he
  obtain ⟨_, hselected, rfl⟩ := List.mem_map.mp he
  obtain ⟨m, hm, rfl⟩ := List.mem_map.mp hselected
  obtain ⟨g, hg, hmember⟩ := List.mem_flatMap.mp hm
  obtain ⟨f, hf, rfl⟩ := List.mem_map.mp hmember
  have htexts := h g (List.mem_filter.mp hg).1 f (List.mem_filter.mp hf).1
  exact ⟨htexts.id, htexts.message⟩

theorem parse_name (format : Format) : Format.parse (.text format.name) = .ok format := by
  cases format <;> rfl

/-- All lines of the findings that a report covers can be written out. -/
def LegibleLines (s : Store) (policy : PathPolicy) : Prop :=
  ∀ f ∈ s.select policy, ∀ l ∈ f.backtrace, Legible l.line

theorem Filed.legibleLines (h : s.Filed Finding.LegibleLines) (policy : PathPolicy) :
    s.LegibleLines policy := by
  refine List.forall_mem_map.mpr fun m hm => ?_
  exact h.of_mem_traverse hm

instance (s : Store) (policy : PathPolicy) : Decidable (s.LegibleLines policy) :=
  inferInstanceAs (Decidable (∀ f ∈ s.select policy, ∀ l ∈ f.backtrace, Legible l.line))

theorem InTexts.render_eq (h : s.InTexts) (format : Format) (policy : PathPolicy) :
    ∃ report, Report.render format (s.entries policy) =
      if s.LegibleLines policy then .ok report else .error .integerTooLong := by
  have hlegible : (∀ e ∈ s.entries policy, e.Legible) ↔ s.LegibleLines policy := by
    rw [entries, List.forall_mem_map]
    exact forall₂_congr fun _ _ => Report.legible_ofFinding
  simpa only [hlegible] using Report.render_eq format (h.entries_hasTexts policy)

/-- Exporting findings with texts gives a report in each format, but for lines that cannot be written out. -/
theorem InTexts.exported_eq (h : s.InTexts) (format : Format) (policy : PathPolicy) :
    ∃ report, s.exported (.text format.name) policy =
      if s.LegibleLines policy then .ok report else .error .integerTooLong := by
  rw [exported, parse_name]
  exact h.render_eq format policy

theorem isEncodable_exported {given : Value} {policy : PathPolicy} {t : Text}
    (h : s.exported given policy = .ok t) : t.isEncodable := by
  unfold exported at h
  cases hformat : Format.parse given with
  | error e => simp [hformat] at h
  | ok format =>
    simp only [hformat] at h
    exact Report.isEncodable_render h

end Store

namespace Tree

/-- Data never makes an export fail, and every report can be encoded. In every state of a tree and under every
policy, each format gives a report if all that was reported was in texts, with integers for lines, surrogates or
not, and the lines it covers can be written out; a line that cannot is the only thing that keeps it from being
given. And whatever was reported, a report that is given, in whatever format, has no surrogate in it: written in
UTF-8 it is read back as it is. -/
theorem exports_encodable (mask : Mask) (policy : PathPolicy) (applications : Registry) (ops : List Op)
    (policy' : PathPolicy) :
    let s := (({ view := { mask }, policy, applications } : Tree).run ops).store
    ((∀ r, .add r ∈ ops → r.OfTexts) → ∀ format : Format,
      (s.LegibleLines policy' → ∃ report, s.exported (.text format.name) policy' = .ok report) ∧
      (¬s.LegibleLines policy' → s.exported (.text format.name) policy' = .error .integerTooLong)) ∧
    ∀ given report, s.exported given policy' = .ok report →
      report.isEncodable ∧ Utf8.decode? (Utf8.encode report) = some report := by
  intro s
  refine ⟨fun hops format => ?_, fun given report hreport => ?_⟩
  · have htexts : s.Filed Finding.HasTexts :=
      run_hasTexts (t := { view := { mask }, policy, applications }) (Store.filed_empty 0) hops
    obtain ⟨report, hreport⟩ := htexts.inTexts.exported_eq format policy'
    exact ⟨fun hlines => ⟨report, by rw [hreport, if_pos hlines]⟩, fun hlines => by rw [hreport, if_neg hlines]⟩
  · have hencodable : report.isEncodable := Store.isEncodable_exported hreport
    exact ⟨hencodable, Utf8.decode?_encode hencodable⟩

/-- A report on nothing but lone surrogates, before a negative line. -/
def surrogateReport : Report where
  file := .text [.ofNat 0xD800]
  severity := .text [.ofNat 0xD800]
  message := .text [.ofNat 0xD800]
  backtrace := [(.text [.ofNat 0xD800], .int (-1))]
  id := .text [.ofNat 0xD800]

theorem surrogateReport_exported :
    let s := (({} : Tree).run [.add surrogateReport]).store
    (∀ r, .add r ∈ [Op.add surrogateReport] → r.OfTexts) ∧
    (∀ format : Format, ∃ report, s.exported (.text format.name) {} = .ok report) ∧
    s.exported (.text "text") {} = .ok "?\terror\t?\t?\n\t?:0\n" := by
  intro s
  have hops : ∀ r, .add r ∈ [Op.add surrogateReport] → r.OfTexts := by
    intro r hr
    obtain rfl : r = surrogateReport := by simpa using hr
    exact ⟨⟨_, rfl⟩, ⟨_, rfl⟩, ⟨_, rfl⟩, ⟨_, rfl⟩, by simp [surrogateReport]⟩
  have hlines : s.LegibleLines {} := by decide
  have hexports := (exports_encodable {} {} {} [.add surrogateReport] {}).1 hops
  exact ⟨hops, fun format => (hexports format).1 hlines, rfl⟩

end Tree
end Findings
