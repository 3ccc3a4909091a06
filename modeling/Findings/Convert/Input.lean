import Findings.Json.Reader
import Findings.Text.Utf8
import Findings.Tree.Basic

/-!
# The findings file

A findings file is a list of objects in JSON, of the shape that a JSON report has. Anything but a list holds
no findings. A field that is missing, or does not count as given, is empty.
-/

namespace Findings.Convert

/-- Why a findings file cannot be read. -/
inductive InputFault where
  | notUtf8
  | notJson (e : Json.Fault)
  | itemNotObject
  | locationsNotList
  | locationNotObject
deriving DecidableEq, Repr

/-- The deepest nesting of lists and objects in a findings file. -/
def depthLimit : Nat := 988

/-- The items of a findings file. -/
def readItems (content : List UInt8) : Except InputFault (List Value) :=
  match Utf8.decode? content with
  | none => .error .notUtf8
  | some t => match Json.read depthLimit t with
    | .error e => .error (.notJson e)
    | .ok (.list items) => .ok items
    | .ok _ => .ok []

/-- A field of an object; null if it is missing. -/
def fieldOf (fields : List (Text × Value)) (key : String) : Value :=
  (Value.field? fields (Text.ofString key)).getD .null

def locationOf : Value → Except InputFault (Value × Value)
  | .object fields =>
    let line := fieldOf fields "line"
    .ok ((fieldOf fields "file").orEmpty, if line.isGiven then line else .int 0)
  | _ => .error .locationNotObject

/-- The locations of an item. What is inside of a text or an object is no location. -/
def locationsOf (v : Value) : Except InputFault (List (Value × Value)) :=
  if !v.isGiven then .ok []
  else match v with
  | .list vs => vs.mapM locationOf
  | .text _ | .object _ => .error .locationNotObject
  | _ => .error .locationsNotList

/-- The finding that an item reports. -/
def reportOf : Value → Except InputFault Tree.Report
  | .object fields =>
    (locationsOf (fieldOf fields "locations")).map fun backtrace =>
      { file := (fieldOf fields "file").orEmpty
        severity := (fieldOf fields "severity").orEmpty
        message := (fieldOf fields "msg").orEmpty
        backtrace
        id := (fieldOf fields "id").orEmpty }
  | _ => .error .itemNotObject

end Findings.Convert
