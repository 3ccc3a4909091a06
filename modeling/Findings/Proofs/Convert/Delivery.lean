import Findings.Proofs.Convert.Files
import Findings.Proofs.Convert.Intake
import Findings.Proofs.Tree.Saving

/-!
# Giving the report out

A report is printed when it can be rendered (`print_of_exported`). What was opened has it when it can be rendered and
is no longer than what a fault lets through (`deliver_of_fits`), and no other run that opens something ends without
failure (`fits_of_deliver`).
-/

namespace Findings.Convert

variable {o : Options} {t : Tree} {messages : List Text} {folder : Folder} {fault : Option DiskFault}

/-- The fault lets the whole content through. -/
def Fits (fault : Option DiskFault) (content : List UInt8) : Prop :=
  ∀ f ∈ fault, content.length ≤ f.kept

theorem fits_none (content : List UInt8) : Fits none content := by simp [Fits]

theorem fits_nil (fault : Option DiskFault) : Fits fault [] := fun _ _ => Nat.zero_le _

theorem kept_of_fits {content : List UInt8} (h : Fits fault content) : kept fault content = content := by
  cases fault with
  | none => rfl
  | some f => exact List.take_of_length_le (h f rfl)

theorem octets_of_exported {report : Text} (h : t.exported o.formatValue = .ok report) :
    octets o t = Utf8.encode report := by
  simp only [octets, h]

theorem octets_of_error {e : Error} (h : t.exported o.formatValue = .error e) : octets o t = [] := by
  simp only [octets, h]

/-! ## Saving -/

theorem result_save (t : Tree) (format : Value) : (t.save {} format).result = t.exported format := by
  unfold Tree.save Store.save Tree.exported Store.exported
  cases Format.parse format with
  | error e => rfl
  | ok f =>
    cases hrender : Report.render f (t.store.entries t.policy) with
    | error e => simp only [hrender]
    | ok report =>
      simp only [hrender]
      rfl

/-- That a report was saved is not shown. -/
theorem shown_save {sink : Sink} {format : Value} {report : Text} (h : (t.save sink format).result = .ok report) :
    shown (t.save sink format).log = [] := by
  unfold Tree.save Store.save at h ⊢
  cases hparse : Format.parse format with
  | error e => rfl
  | ok f =>
    cases hrender : Report.render f (t.store.entries t.policy) with
    | error e => simp only [hrender]; rfl
    | ok rendered =>
      rcases hdeliver : sink.deliver rendered with ⟨calls, _ | (reason | reason)⟩
      · simp only [hrender, Sink.save, hdeliver]
        rfl
      · simp [hparse, hrender, Sink.save, hdeliver] at h
      · simp [hparse, hrender, Sink.save, hdeliver] at h

theorem result_save_refused {format : Value} {report : Text} (h : t.exported format = .ok report) (reason : Text) :
    ∃ f, (t.save { write := some (.refused reason) } format).result = .error (.writeFailed f reason) := by
  unfold Tree.exported Store.exported at h
  unfold Tree.save Store.save
  cases hparse : Format.parse format with
  | error e => simp [hparse] at h
  | ok f =>
    simp only [hparse] at h
    simp only [h]
    exact ⟨f, rfl⟩

/-! ## On the standard output -/

theorem print_of_exported {report : Text} (h : t.exported o.formatValue = .ok report) :
    print o t messages folder = { ending := .ok 0, output := report, messages := messages ++ [summary t o], folder } := by
  simp only [print, result_save, h]

theorem exported_of_print (h : (print o t messages folder).ending = .ok 0) :
    ∃ report, t.exported o.formatValue = .ok report := by
  cases hexported : t.exported o.formatValue with
  | ok report => exact ⟨report, rfl⟩
  | error e => simp [print, result_save, hexported] at h

/-! ## In what was opened -/

/-- A fault that lets everything through is as good as none. -/
theorem sink_of_fits {content : List UInt8} (h : Fits fault content) :
    (fault.map (·.sink content.length)).getD {} = {} ∧ fault.bind (·.closing? content.length) = none := by
  cases fault with
  | none => exact ⟨rfl, rfl⟩
  | some f =>
    have hkept : ¬f.kept < content.length := Nat.not_lt.mpr (h f rfl)
    simp [DiskFault.sink, DiskFault.closing?, hkept]

theorem conclude_of_fits {report : Text} (h : t.exported o.formatValue = .ok report)
    (hfits : Fits fault (Utf8.encode report)) :
    conclude o t messages fault = (.ok 0, messages ++ [summary t o]) := by
  obtain ⟨hsink, hclosing⟩ := sink_of_fits hfits
  have hsave : (t.save {} o.formatValue).result = .ok report := (result_save t _).trans h
  simp only [conclude, octets_of_exported h, hsink, hclosing, hsave, shown_save hsave, List.append_nil]

/-- Nothing is kept from being written if there is no report. -/
theorem conclude_of_error {e : Error} (h : t.exported o.formatValue = .error e) :
    (conclude o t messages fault).1 ≠ .ok 0 := by
  obtain ⟨hsink, hclosing⟩ := sink_of_fits (fits_nil fault)
  have hsave : (t.save {} o.formatValue).result = .error e := (result_save t _).trans h
  simp only [conclude, octets_of_error h, hsink, hclosing, hsave]
  cases e <;> simp

/-- A report that does not fit is refused, or lost when what was opened is closed. -/
theorem conclude_of_not_fits {report : Text} (h : t.exported o.formatValue = .ok report)
    (hfits : ¬Fits fault (Utf8.encode report)) : (conclude o t messages fault).1 ≠ .ok 0 := by
  unfold Fits at hfits
  push Not at hfits
  obtain ⟨f, rfl, hlt⟩ := hfits
  simp only [conclude, octets_of_exported h, Option.map_some, Option.getD_some, Option.bind_some]
  cases hclosing : f.closing? (Utf8.encode report).length with
  | some reason => simp
  | none =>
    have hopen : f.onClosing = false := by
      cases honClosing : f.onClosing with
      | false => rfl
      | true => simp [DiskFault.closing?, hlt, honClosing] at hclosing
    have hsink : f.sink (Utf8.encode report).length = { write := some (.refused f.reason) } := by
      simp [DiskFault.sink, hlt, hopen]
    obtain ⟨format, hresult⟩ := result_save_refused h f.reason
    simp [hsink, hresult]

theorem fits_of_conclude (h : (conclude o t messages fault).1 = .ok 0) :
    ∃ report, t.exported o.formatValue = .ok report ∧ Fits fault (Utf8.encode report) := by
  cases hexported : t.exported o.formatValue with
  | error e => exact absurd h (conclude_of_error hexported)
  | ok report => exact ⟨report, rfl, by_contra fun hfits => conclude_of_not_fits hexported hfits h⟩

/-- What was opened has the report then, if it is a file. -/
theorem deliver_of_fits {d : Folder.Destination} {report : Text} (h : t.exported o.formatValue = .ok report)
    (hfits : Fits (folder.faultOf d) (Utf8.encode report)) :
    deliver o t messages folder d =
      { ending := .ok 0, messages := messages ++ [summary t o]
        folder := match d with
          | .file route => folder.put route (Utf8.encode report)
          | .device _ => folder } := by
  simp only [deliver, conclude_of_fits h hfits, octets_of_exported h]
  cases d with
  | file route =>
    have hkept : kept folder.disk (Utf8.encode report) = Utf8.encode report := kept_of_fits hfits
    simp only [hkept]
  | device d => rfl

theorem fits_of_deliver {d : Folder.Destination} (h : (deliver o t messages folder d).ending = .ok 0) :
    ∃ report, t.exported o.formatValue = .ok report ∧ Fits (folder.faultOf d) (Utf8.encode report) :=
  fits_of_conclude h

end Findings.Convert
