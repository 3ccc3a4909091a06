import Findings.Log.Event
import Findings.Report.Json
import Findings.Report.Text
import Findings.Report.Xml

/-!
# Exporting and saving reports

A report is rendered first and then handed to a sink in one piece, which is flushed if it can be. A sink
that refuses the report is an error of its own; any other failure of the sink is passed on.
-/

namespace Findings

namespace Report

def render (format : Format) (entries : List (Entry Value)) : Except Error Text :=
  match format with
  | .json =>
    if Value.areLegible (entries.map entryValue) then .ok (json entries) else .error .integerTooLong
  | .text => (entries.mapM (Entry.texts .text)).map text
  | .xml => (entries.mapM (Entry.texts .xml)).map xml

end Report

/-- The report on the findings of a store. -/
def Store.exported (s : Store) (format : Value) (policy : PathPolicy) : Except Error Text :=
  match Format.parse format with
  | .error e => .error e
  | .ok f => Report.render f (s.entries policy)

/-- How a sink fails: it refuses what is written, or breaks down. -/
inductive SinkFailure where
  | refused (reason : Text)
  | broken (reason : Text)
deriving DecidableEq, Repr

inductive Flush where
  /-- The sink cannot be flushed. -/
  | absent
  | works
  | fails (e : SinkFailure)
deriving DecidableEq, Repr

/-- Where a report goes: what writing to it and flushing it do. -/
structure Sink where
  write : Option SinkFailure := none
  flush : Flush := .works
deriving DecidableEq, Repr

namespace Sink

inductive Call where
  | write (t : Text)
  | flush
deriving DecidableEq, Repr

/-- The calls that hand a text to the sink, and how it ends. -/
def deliver (sink : Sink) (t : Text) : List Call × Option SinkFailure :=
  match sink.write with
  | some e => ([.write t], some e)
  | none => match sink.flush with
    | .absent => ([.write t], none)
    | .works => ([.write t, .flush], none)
    | .fails e => ([.write t, .flush], some e)

end Sink

/-- What saving a report did: its answer, the calls to the sink, and the events. -/
structure Saving where
  result : Except Error Text
  calls : List Sink.Call := []
  log : List Log.Event := []

/-- Hands a rendered report to a sink. -/
def Sink.save (sink : Sink) (format : Format) (report : Text) : Saving :=
  match sink.deliver report with
  | (calls, none) => ⟨.ok report, calls, [.reportSaved format report.length]⟩
  | (calls, some (.refused reason)) =>
    ⟨.error (.writeFailed format reason), calls, [.reportFailed format reason]⟩
  | (calls, some (.broken reason)) => ⟨.error (.sinkFailed reason), calls, []⟩

/-- Renders the report on the findings of a store and hands it to a sink. -/
def Store.save (s : Store) (sink : Sink) (format : Value) (policy : PathPolicy) : Saving :=
  match Format.parse format with
  | .error e => { result := .error e }
  | .ok f => match Report.render f (s.entries policy) with
    | .error e => { result := .error e }
    | .ok report => sink.save f report

end Findings
