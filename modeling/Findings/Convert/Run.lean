import Findings.Convert.Arguments
import Findings.Convert.Folder
import Findings.Convert.Input

/-!
# Runs of the converter

A run reads its arguments, then the findings file, then takes all findings into a tree, and only then opens
the file for the report. A report that cannot be written is reported and ends the run with code 1; any
other failure breaks the run off. A file that was opened is empty then, and what a fault lets through of the
report is what it holds in the end.
-/

namespace Findings.Convert

/-- What breaks a run off. -/
inductive Failure where
  | file (e : FileFault)
  | input (e : InputFault)
  | error (e : Error)
deriving Repr

/-- What a run leaves: its exit code or what broke it off, the lines on the two outputs, and the folder. -/
structure Run where
  ending : Except Failure Nat
  output : Text := []
  messages : List Text := []
  folder : Folder

/-! ## The steps of a run -/

/-- The line that refuses arguments. -/
def Usage.line (u : Usage) : Text := "export_report.py: error: " ++ u.message

/-- Events are shown from the level of a warning on. -/
def shown (log : List Log.Event) : List Text :=
  (log.filter fun e => Log.warning ≤ e.record.level).map Log.Event.message

/-- The tree that findings are taken into. What has no label cannot be hidden. -/
def Options.tree (o : Options) : Except Error Tree :=
  match o.hidden.mapM id with
  | none => .error .compoundLabel
  | some hidden =>
    .ok { view := { mask := hidden.foldl (fun m c => m.set c false) {} }
          policy :=
            { checkDirectory := o.checkDirectory
              showFullPath := o.fullPath
              saveFullPath := o.fullPath
              saveAllErrors := !o.visibleOnly } }

/-- The tree after items were taken in, what was logged on the way, and the failure that ended it. -/
structure Intake where
  tree : Tree
  log : List Log.Event := []
  failure : Option Failure := none

/-- Takes items in, up to the first that fails. -/
def takeIn (t : Tree) : List Value → Intake
  | [] => { tree := t }
  | item :: items =>
    match reportOf item with
    | .error e => { tree := t, failure := some (.input e) }
    | .ok r =>
      let o := t.add r
      match o.result with
      | .error e => { tree := o.state, log := o.log, failure := some (.error e) }
      | .ok _ =>
        let rest := takeIn o.state items
        { rest with log := o.log ++ rest.log }

/-- The format that the report is asked for in; an empty list if no format was named. -/
def Options.formatValue (o : Options) : Value :=
  match o.format with
  | some f => .text f.name
  | none => .list []

/-- The line that ends a run whose report was written. -/
def summary (t : Tree) (o : Options) : Text :=
  "[export] " ++ Text.ofNat t.store.size ++ " findings, " ++ o.formatValue.display

/-- The line that ends a run whose report could not be written. -/
def refusal (reason : Text) : Text := "[export] FAILED: " ++ reason

/-- Writes the report to the standard output. -/
def print (o : Options) (t : Tree) (messages : List Text) (folder : Folder) : Run :=
  match (t.save {} o.formatValue).result with
  | .error e => { ending := .error (.error e), messages, folder }
  | .ok report => { ending := .ok 0, output := report, messages := messages ++ [summary t o], folder }

/-- The octets that are kept back for one more try when what was opened is closed. -/
def bufferSize : Nat := 4096

namespace DiskFault

/-- How what has the fault takes a report of so many octets. -/
def sink (fault : DiskFault) (size : Nat) : Sink :=
  if fault.kept < size && !fault.onClosing then { write := some (.refused fault.reason) } else {}

/-- Why it cannot be closed after such a report. One that was kept back fails once more. -/
def closing? (fault : DiskFault) (size : Nat) : Option Text :=
  if fault.kept < size && (fault.onClosing || size - fault.kept ≤ bufferSize) then some fault.reason else none

end DiskFault

/-- The octets of the report; none if it cannot be rendered. -/
def octets (o : Options) (t : Tree) : List UInt8 :=
  match t.exported o.formatValue with
  | .ok report => Utf8.encode report
  | .error _ => []

/-- How a run ends that hands the report to what it opened, and what it tells. Why that cannot be closed is
told in the place of what came before. -/
def conclude (o : Options) (t : Tree) (messages : List Text) (fault : Option DiskFault) :
    Except Failure Nat × List Text :=
  let size := (octets o t).length
  let saving := t.save ((fault.map (·.sink size)).getD {}) o.formatValue
  let messages := messages ++ shown saving.log
  match fault.bind (·.closing? size), saving.result with
  | some reason, _ => (.ok 1, messages ++ [refusal reason])
  | none, .ok _ => (.ok 0, messages ++ [summary t o])
  | none, .error (.writeFailed f reason) =>
    (.ok 1, messages ++ [refusal (Error.writeFailed f reason).message])
  | none, .error e => (.error (.error e), messages)

/-- What a fault lets through. -/
def kept (fault : Option DiskFault) (content : List UInt8) : List UInt8 :=
  match fault with
  | none => content
  | some fault => content.take fault.kept

/-- Writes the report to what was opened. -/
def deliver (o : Options) (t : Tree) (messages : List Text) (folder : Folder)
    (d : Folder.Destination) : Run :=
  let (ending, messages) := conclude o t messages (folder.faultOf d)
  { ending
    messages
    folder := match d with
      | .file route => folder.put route (kept folder.disk (octets o t))
      | .device _ => folder }

/-- Opens the file for the report and writes it. -/
def write (o : Options) (t : Tree) (messages : List Text) (folder : Folder) (name : Text) : Run :=
  match folder.create name with
  | .ok (folder, d) => deliver o t messages folder d
  | .error e =>
    if e.description?.isSome then
      { ending := .ok 1, messages := messages ++ [refusal (e.message (some name))], folder }
    else { ending := .error (.file e), messages, folder }

/-! ## The run -/

/-- The tree that items are taken into, or what breaks that off, and what is told on the way. -/
def taken (o : Options) (items : List Value) : Except Failure Tree × List Text :=
  match o.tree with
  | .error e => (.error (.error e), [])
  | .ok tree =>
    let intake := takeIn tree items
    match intake.failure with
    | some e => (.error e, shown intake.log)
    | none => (.ok intake.tree, shown intake.log)

/-- The run with options on the items of its findings file. -/
def convert (o : Options) (items : List Value) (folder : Folder) : Run :=
  match taken o items with
  | (.error e, messages) => { ending := .error e, messages, folder }
  | (.ok t, messages) => match o.out with
    | none | some [] => print o t messages folder
    | some name => write o t messages folder name

/-- A run of the converter in a folder. -/
def run (arguments : List Text) (folder : Folder) : Run :=
  match Options.ofArguments arguments with
  | .error .help => { ending := .ok 0, folder }
  | .error u => { ending := .ok 2, messages := [u.line], folder }
  | .ok o => match folder.read o.findings with
    | .error e => { ending := .error (.file e), folder }
    | .ok content => match readItems content with
      | .error e => { ending := .error (.input e), folder }
      | .ok items => convert o items folder

end Findings.Convert
