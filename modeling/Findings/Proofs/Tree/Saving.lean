import Findings.Proofs.Report.Encodable

/-!
# Saving a report

A format is named by its name, in whatever capitals and with blanks around it (`Format.parse_text_iff`). A name
of no format is refused before the sink is called. Otherwise the whole report is written in one call, the sink
flushed only after that worked, and the answer is the report exactly if the sink did not fail; a refusal of the
sink and any other failure of it are told apart (`Sink.saved_save`). Findings with texts give a report to save,
unless a line number in it is too long to be written out; then the sink is not called either. For every store with
texts and every state of a tree whose reports are in texts, this is `saving_delivers_or_fails`.
-/

namespace Findings

namespace Format

theorem parse?_eq_some_iff {t : Text} {f : Format} : parse? t = some f ↔ f.name = t.trim.lower := by
  rw [parse?, ofName?]
  constructor
  · intro h
    simpa using List.find?_some h
  · intro h
    rw [← h]
    cases f <;> rfl

/-- A text names a format just if it is its name, but for capitals and blanks around it. -/
theorem parse_text_iff {t : Text} {f : Format} : parse (.text t) = .ok f ↔ f.name = t.trim.lower := by
  rw [← parse?_eq_some_iff, parse, Value.orEmpty_text]
  cases hparse : parse? t <;> simp [hparse]

theorem parse_text_unknown {t : Text} (h : ∀ f : Format, f.name ≠ t.trim.lower) :
    parse (.text t) = .error (.unknownFormat (.text t)) := by
  have hnone : parse? t = none :=
    Option.eq_none_iff_forall_ne_some.mpr fun f hf => h f (parse?_eq_some_iff.mp hf)
  rw [parse, Value.orEmpty_text]
  simp only [hnone]

end Format

/-! ## The sink -/

namespace Sink

/-- Writing to the sink fails, or flushing it after that. -/
def Fails (sink : Sink) (e : SinkFailure) : Prop :=
  sink.write = some e ∨ sink.write = none ∧ sink.flush = .fails e

/-- A report was handed to a sink: in one piece, with a flush only behind a write that worked; the answer is the
report if neither failed, and else tells how it failed. -/
structure Saved (sink : Sink) (format : Format) (report : Text) (saving : Saving) : Prop where
  calls : saving.calls =
    .write report :: if sink.write = none ∧ sink.flush ≠ .absent then [.flush] else []
  returned : ∀ t, saving.result = .ok t ↔ (∀ e, ¬sink.Fails e) ∧ t = report
  refused : ∀ reason, saving.result = .error (.writeFailed format reason) ↔ sink.Fails (.refused reason)
  passedOn : ∀ reason, saving.result = .error (.sinkFailed reason) ↔ sink.Fails (.broken reason)

theorem calls_deliver (sink : Sink) (t : Text) :
    (sink.deliver t).1 = .write t :: if sink.write = none ∧ sink.flush ≠ .absent then [.flush] else [] := by
  obtain ⟨write, flush⟩ := sink
  cases write with
  | some e => rfl
  | none => cases flush <;> rfl

theorem deliver_eq_some_iff {sink : Sink} {t : Text} {e : SinkFailure} :
    (sink.deliver t).2 = some e ↔ sink.Fails e := by
  obtain ⟨write, flush⟩ := sink
  cases write with
  | some e' => simp [deliver, Fails]
  | none => cases flush <;> simp [deliver, Fails]

theorem deliver_eq_none_iff {sink : Sink} {t : Text} : (sink.deliver t).2 = none ↔ ∀ e, ¬sink.Fails e := by
  rw [Option.eq_none_iff_forall_ne_some]
  exact forall_congr' fun e => not_congr deliver_eq_some_iff

theorem saved_save (sink : Sink) (format : Format) (report : Text) :
    sink.Saved format report (sink.save format report) := by
  have hcalls := calls_deliver sink report
  have hworks : (sink.deliver report).2 = none ↔ ∀ e, ¬sink.Fails e := deliver_eq_none_iff
  have hfails : ∀ e, (sink.deliver report).2 = some e ↔ sink.Fails e := fun _ => deliver_eq_some_iff
  unfold save
  generalize sink.deliver report = delivery at hcalls hworks hfails ⊢
  obtain ⟨calls, failure⟩ := delivery
  cases failure with
  | none => exact ⟨hcalls, by simp [← hworks, eq_comm], by simp [← hfails], by simp [← hfails]⟩
  | some e =>
    cases e with
    | refused reason => exact ⟨hcalls, by simp [← hworks], by simp [← hfails], by simp [← hfails]⟩
    | broken reason => exact ⟨hcalls, by simp [← hworks], by simp [← hfails], by simp [← hfails]⟩

end Sink

/-! ## The store -/

namespace Store

/-- What saving did for a sink and a name of a format: a name of none is refused with no call to the sink; the
report that is exported in the format named is handed over, and if there is none for the lines in it, that is told
with no call to the sink. -/
structure Saved (s : Store) (policy : PathPolicy) (sink : Sink) (name : Text) (saving : Saving) : Prop where
  unknown : (∀ f : Format, f.name ≠ name.trim.lower) →
    saving.result = .error (.unknownFormat (.text name)) ∧ saving.calls = []
  known : ∀ f : Format, f.name = name.trim.lower → s.LegibleLines policy →
    ∃ report, s.exported (.text name) policy = .ok report ∧ sink.Saved f report saving
  overlong : (∃ f : Format, f.name = name.trim.lower) → ¬s.LegibleLines policy →
    saving.result = .error .integerTooLong ∧ saving.calls = []

theorem InTexts.saved_save {s : Store} (h : s.InTexts) (policy : PathPolicy) (sink : Sink) (name : Text) :
    s.Saved policy sink name (s.save sink (.text name) policy) := by
  constructor
  · intro hunknown
    rw [save, Format.parse_text_unknown hunknown]
    exact ⟨rfl, rfl⟩
  · intro f hf hlines
    obtain ⟨report, hreport⟩ := h.render_eq f policy
    rw [if_pos hlines] at hreport
    have hparse := Format.parse_text_iff.mpr hf
    refine ⟨report, by rw [exported, hparse]; exact hreport, ?_⟩
    rw [save, hparse]
    simp only [hreport]
    exact sink.saved_save f report
  · rintro ⟨f, hf⟩ hlines
    obtain ⟨report, hreport⟩ := h.render_eq f policy
    rw [if_neg hlines] at hreport
    rw [save, Format.parse_text_iff.mpr hf]
    simp only [hreport, and_self]

end Store

namespace Tree

/-- Whatever findings with texts a store holds, and under every policy: a name of no format is refused before
the sink is called. With any other name, if the lines to be reported can be written out, exactly the exported report
is written, in one call, and flushed only if writing it worked and the sink can be flushed; the report is the
answer just if nothing failed, a refused write is reported as such just if the sink refused, and any other failure
of the sink is passed on. If a line cannot be written out, that is told and the sink is not called. In a tree whose
reports were in texts all findings have texts, and saving does this with its store and leaves the tree as it is. -/
theorem saving_delivers_or_fails (policy : PathPolicy) (sink : Sink) (name : Text) :
    (∀ s : Store, s.InTexts → s.Saved policy sink name (s.save sink (.text name) policy)) ∧
    ∀ (mask : Mask) (policy' : PathPolicy) (applications : Registry) (ops : List Op),
      (∀ r, .add r ∈ ops → r.OfTexts) →
      let t := { ({ view := { mask }, policy := policy', applications } : Tree).run ops with policy }
      let after := (t.step (.save sink (.text name))).1
      let reply := (t.step (.save sink (.text name))).2
      after = t ∧ t.store.InTexts ∧ ∃ saving, t.store.Saved policy sink name saving ∧
        reply.result = saving.result.map .report ∧ reply.sinkCalls = saving.calls := by
  refine ⟨fun s hs => hs.saved_save policy sink name, fun mask policy' applications ops hops => ?_⟩
  intro t after reply
  have hfiled : t.store.Filed Finding.HasTexts :=
    run_hasTexts (t := { view := { mask }, policy := policy', applications }) (Store.filed_empty 0) hops
  exact ⟨rfl, hfiled.inTexts, _, hfiled.inTexts.saved_save policy sink name, rfl, rfl⟩

/-- A sink that takes the report and breaks down when it is flushed. -/
def lost : Sink := { flush := .fails (.broken "gone") }

/-- A sink that takes nothing. -/
def shut : Sink := { write := some (.refused "closed") }

theorem unusedVariable_saved :
    let t := ({} : Tree).run [.add unusedVariable]
    let report : Text := "/src/a.cpp\tstyle\tunusedVariable\tunused variable\n"
    let broken := (t.step (.save lost (.text " Text\n"))).2
    let closed := t.store.save shut (.text "text") {}
    let unnamed := t.store.save lost (.text "yaml") {}
    t.store.InTexts ∧ broken.sinkCalls = [.write report, .flush] ∧ broken.result = .error (.sinkFailed "gone") ∧
      closed.calls = [.write report] ∧ closed.result = .error (.writeFailed .text "closed") ∧
      unnamed.calls = [] ∧ unnamed.result = .error (.unknownFormat (.text "yaml")) := by
  intro t report broken closed unnamed
  have hops : ∀ r, .add r ∈ [Op.add unusedVariable] → r.OfTexts := by
    intro r hr
    obtain rfl : r = unusedVariable := by simpa using hr
    exact ⟨⟨_, rfl⟩, ⟨_, rfl⟩, ⟨_, rfl⟩, ⟨_, rfl⟩, by simp [unusedVariable]⟩
  obtain ⟨-, hin, saving, hsaved, hresult, hcalls⟩ :=
    (saving_delivers_or_fails {} lost " Text\n").2 {} {} {} _ hops
  have hknown : ∀ {sink name saving}, t.store.Saved {} sink name saving → Format.text.name = name.trim.lower →
      sink.Saved .text report saving := by
    intro sink name saving hsaved hname
    obtain ⟨report', hexported, hsaved⟩ := hsaved.known .text hname (by decide)
    have hreport : t.store.exported (.text name) {} = .ok report := by
      rw [Store.exported, Format.parse_text_iff.mpr hname]
      rfl
    rwa [Except.ok.inj (hreport.symm.trans hexported)]
  have hbroken := hknown hsaved (by decide)
  have hclosed := hknown ((saving_delivers_or_fails {} shut "text").1 t.store hin) (by decide)
  have hunnamed := ((saving_delivers_or_fails {} lost "yaml").1 t.store hin).unknown (by
    intro f
    cases f <;> decide)
  refine ⟨hin, hcalls.trans hbroken.calls, ?_, hclosed.calls, (hclosed.refused _).mpr (.inl rfl), hunnamed.2,
    hunnamed.1⟩
  have hpassed : saving.result = .error (.sinkFailed "gone") := (hbroken.passedOn _).mpr (.inr ⟨rfl, rfl⟩)
  rw [show broken.result = saving.result.map .report from hresult, hpassed]
  rfl

/-- A report with a line number that has too many digits. -/
def overlongReport : Report where
  file := .text "a.c"
  severity := .text "error"
  message := .text "m"
  backtrace := [(.text "a.c", .int overlong)]

/-- It is in texts, and yet it cannot be saved: the sink is not called, and what is told is not that it failed. -/
theorem overlong_line_not_saved :
    let t := ({} : Tree).run [.add overlongReport]
    overlongReport.OfTexts ∧
      (t.step (.save {} (.text "text"))).2.result = .error .integerTooLong ∧
      (t.step (.save {} (.text "text"))).2.sinkCalls = [] := by
  intro t
  have htexts : overlongReport.OfTexts :=
    ⟨⟨_, rfl⟩, ⟨_, rfl⟩, ⟨_, rfl⟩, ⟨_, rfl⟩, List.forall_mem_singleton.mpr ⟨_, _, rfl⟩⟩
  have hfiled : t.store.Filed Finding.HasTexts :=
    run_hasTexts (t := {}) (Store.filed_empty 0) (by simpa using htexts)
  have hlines : ¬t.store.LegibleLines {} := by
    intro hlines
    have hline := hlines _ List.mem_cons_self ⟨"a.c", overlong.toNat⟩ List.mem_cons_self
    rw [Int.toNat_of_nonneg (le_overlong (Nat.zero_le 10))] at hline
    exact not_legible_overlong hline
  obtain ⟨hresult, hcalls⟩ := (hfiled.inTexts.saved_save {} {} "text").overlong ⟨.text, by decide⟩ hlines
  have hreply : (t.step (.save {} (.text "text"))).2.result =
      (t.store.save {} (.text "text") {}).result.map .report := rfl
  rw [hreply, hresult]
  exact ⟨htexts, rfl, hcalls⟩

end Tree
end Findings
