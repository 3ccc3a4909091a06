import Findings.Convert.Message

/-!
# The converter as a program

A run with the files and outputs of the process. What it makes of them is decided by the steps of a run:
`taken`, `print` and `conclude`.
-/

namespace Findings.Program

open Findings.Convert

/-- The fault of the file system behind an error, if it is one that can be told apart. -/
def faultOf? : IO.Error → Option FileFault
  | .noFileOrDirectory .. => some .missing
  | .inappropriateType _ 20 _ => some .notFolder
  | .inappropriateType _ 21 _ => some .isFolder
  | .resourceExhausted _ 28 _ => some .noSpace
  | _ => none

/-- What an error says, with the name that could not be opened. -/
def reasonOf (name : Option Text) (e : IO.Error) : Text :=
  match faultOf? e with
  | some fault => fault.message name
  | none => Text.ofString (toString e)

def complain (t : Text) : IO Unit := IO.eprintln t.toString

/-- Tells what a run tells, and gives its exit code. -/
def finish (o : Options) (ending : Except Failure Nat) (messages : List Text) : IO UInt32 := do
  for line in messages do complain line
  match ending with
  | .ok code => pure code.toUInt32
  | .error e => complain (e.message o.findings); pure 1

/-- The fault that keeps octets from being written, if there is one. -/
def writeAll (handle : IO.FS.Handle) (content : List UInt8) : IO (Option DiskFault) := do
  try
    handle.write ⟨content.toArray⟩
    handle.flush
    pure none
  catch e => pure (some { reason := reasonOf none e })

/-- Opens the named file, which empties it, and writes the report. -/
def writeReport (o : Options) (t : Tree) (messages : List Text) (name : Text) : IO UInt32 := do
  match ← (IO.FS.Handle.mk name.toString .write).toBaseIO with
  | .error e => finish o (.ok 1) (messages ++ [refusal (reasonOf (some name) e)])
  | .ok handle =>
    let (ending, messages) := conclude o t messages (← writeAll handle (octets o t))
    finish o ending messages

/-- Takes the items of the findings file in and gives out the report. -/
def convertItems (o : Options) (items : List Value) : IO UInt32 := do
  match taken o items with
  | (.error e, messages) => finish o (.error e) messages
  | (.ok t, messages) => match o.out with
    | none | some [] =>
      let r := print o t messages {}
      IO.print r.output.toString
      finish o r.ending r.messages
    | some name => writeReport o t messages name

/-- Carries out options. -/
def convertFile (o : Options) : IO UInt32 := do
  match ← (IO.FS.readBinFile o.findings.toString).toBaseIO with
  | .error e => complain (reasonOf (some o.findings) e); pure 1
  | .ok content => match readItems content.toList with
    | .error e => finish o (.error (.input e)) []
    | .ok items => convertItems o items

def run (arguments : List String) : IO UInt32 := do
  match Options.ofArguments (arguments.map Text.ofString) with
  | .error .help =>
    for line in help do IO.println line.toString
    pure 0
  | .error u => complain u.line; pure 2
  | .ok o => convertFile o

end Findings.Program

def main (arguments : List String) : IO UInt32 := Findings.Program.run arguments
