import Findings.Json.Reader
import Findings.Text.Encoding
import Findings.Tree.Basic
import Findings.Validation

/-!
# Request bodies

A body is JSON in any encoding, of which each route needs certain fields; other fields are ignored. All
that is wrong with a body is found, not only the first fault.
-/

namespace Findings.Server

open Validation

/-- Why there is no value to read fields from. -/
inductive BodyFault where
  | invalid (i : Issue)
  /-- Octets that are no text, numbers too long, or values nested too deep. -/
  | unreadable
deriving Repr

def bodyPlace : List Text := [Text.ofString "body"]

/-- The deepest nesting of lists and objects in a body. -/
def depthLimit : Nat := 965

/-- The value of a body; one without octets is missing. -/
def readBody (octets : List UInt8) : Except BodyFault Value :=
  if octets.isEmpty then .error (.invalid ⟨.missing, bodyPlace, .null⟩)
  else match Encoding.decodeDetected? octets with
  | none => .error .unreadable
  | some t => match Json.read depthLimit t with
    | .ok v => .ok v
    | .error .malformed => .error (.invalid ⟨.malformedJson, bodyPlace, .null⟩)
    | .error _ => .error .unreadable

/-- A body whose fields are read by `read`. -/
def readFields {α : Type} (read : List (Text × Value) → Checked α) (v : Value) : Checked α :=
  match objectAt bodyPlace v with
  | .error e => .error e
  | .ok fields => read fields

def textField (fields : List (Text × Value)) (key : String) (default? : Option Text) : Checked Text :=
  field fields bodyPlace (Text.ofString key) (checkAt · asText) default?

def boolField (fields : List (Text × Value)) (key : String) : Checked Bool :=
  field fields bodyPlace (Text.ofString key) (checkAt · asBool) none

def intField (fields : List (Text × Value)) (key : String) (default? : Option Int) : Checked Int :=
  field fields bodyPlace (Text.ofString key) (checkAt · asInt) default?

/-! ## Findings -/

def readLocation (place : List Text) (v : Value) : Checked (Value × Value) :=
  match objectAt place v with
  | .error e => .error e
  | .ok fields =>
    let file := field fields place (Text.ofString "file") (checkAt · asText) none
    let line := field fields place (Text.ofString "line") (checkAt · asNatural) (some 0)
    Checked.apply (file.map fun file line => (.text file, .int line)) line

/-- A list of locations; each is at the place of its position in the list. -/
def readBacktrace (place : List Text) : Value → Checked (List (Value × Value))
  | .list vs => Checked.collect (vs.zipIdx.map fun p => readLocation (place ++ [Text.ofNat p.2]) p.1)
  | v => .error [⟨.listNeeded, place, v⟩]

def readReport : Value → Checked Tree.Report :=
  readFields fun fields =>
    let backtrace := field fields bodyPlace (Text.ofString "backtrace") readBacktrace (some [])
    Checked.apply ((textField fields "file" none).map
        fun file severity message id backtrace =>
          { file := .text file, severity := .text severity, message := .text message, id := .text id,
            backtrace })
        (textField fields "severity" none)
      |>.apply (textField fields "message" (some []))
      |>.apply (textField fields "id" (some []))
      |>.apply backtrace

/-! ## Other bodies -/

def readShow : Value → Checked Bool := readFields fun fields => boolField fields "show"

def readDirectory : Value → Checked Text := readFields fun fields => textField fields "path" none

structure PathSettings where
  showFullPath : Bool
  saveFullPath : Bool
  saveAllErrors : Bool
deriving DecidableEq, Repr

def readSettings : Value → Checked PathSettings :=
  readFields fun fields =>
    Checked.apply ((boolField fields "show_full_path").map PathSettings.mk)
        (boolField fields "save_full_path")
      |>.apply (boolField fields "save_all_errors")

/-- Which finding is to be opened, and in which application if one is named. -/
structure OpenRequest where
  ref : Ref
  application : Option Text
deriving DecidableEq, Repr

/-- The name of an application; null names none. -/
def readName (place : List Text) : Value → Checked (Option Text)
  | .null => .ok none
  | v => (checkAt place asText v).map some

def readOpen : Value → Checked OpenRequest :=
  readFields fun fields =>
    let application := field fields bodyPlace (Text.ofString "application") readName (some none)
    Checked.apply ((textField fields "path" none).map
        fun path index generation application => ⟨⟨path, index, generation⟩, application⟩)
        (intField fields "index" none)
      |>.apply (intField fields "generation" (some 0))
      |>.apply application

end Findings.Server
