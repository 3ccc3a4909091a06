import Findings.Report.Format
import Findings.Value

/-!
# Errors

Why an operation on findings can fail, and the message of each cause.
-/

namespace Findings

/-- How an application fails to open a finding. -/
inductive OpeningFault where
  /-- It does not know what it is told to open. -/
  | notFound (reason : Text)
  | broken (reason : Text)
deriving DecidableEq, Repr

def OpeningFault.reason : OpeningFault → Text
  | notFound reason => reason
  | broken reason => reason

inductive Error where
  /-- The sentinel, or a value that is no category code, where a category is needed. -/
  | invalidCategory (given : Value)
  | unknownFormat (given : Value)
  /-- The sink refused the report. -/
  | writeFailed (format : Format) (reason : Text)
  /-- The sink failed in a way that is not a refused write. -/
  | sinkFailed (reason : Text)
  | noFinding (path : Text) (index : Int)
  | noApplicationAt (position : Int) (registered : Nat)
  | unknownApplication (name : Text) (available : List Text)
  | applicationFailed (fault : OpeningFault)
  /-- A backtrace that breaks off while it is read. -/
  | backtraceBroken (reason : Text)
  /-- A severity label that is a list or an object. -/
  | compoundLabel
  /-- A file that is not a text. -/
  | fileNotText
  | infiniteLine
  /-- A message or an identifier that is not a text, in a format that needs one. -/
  | fieldNotText (format : Format)
  /-- An integer that would have to be written out and has too many digits. -/
  | integerTooLong
deriving Repr

namespace Error

def quoteName (t : Text) : Text := "'" ++ t ++ "'"

def message : Error → Text
  | invalidCategory given => "Invalid category: " ++ given.written
  | unknownFormat given =>
    "Unknown export format " ++ quoteName given.display ++ ". Available: " ++
      Text.join ", " (Format.all.map Format.name)
  | writeFailed format reason => "Could not write " ++ format.name ++ " report: " ++ reason
  | sinkFailed reason => reason
  | noFinding path index => "No finding at " ++ path ++ "#" ++ Text.ofInt index
  | noApplicationAt position registered =>
    "No application at index " ++ Text.ofInt position ++ " (" ++ Text.ofNat registered ++ " registered)"
  | unknownApplication name available =>
    "Unknown application " ++ quoteName name ++ ". Available: " ++
      match Text.join ", " available with
      | [] => "none"
      | names => names
  | applicationFailed fault => fault.reason
  | backtraceBroken reason => reason
  | compoundLabel => "A severity label cannot be a list or an object"
  | fileNotText => "A file must be a text"
  | infiniteLine => "A line number cannot be infinite"
  | fieldNotText format => "A field of a " ++ format.name ++ " report must be a text"
  | integerTooLong => "An integer has too many digits to be written"

/-- The error whose message says `n`, or that `n` cannot be written out. -/
def saying (n : Int) (e : Error) : Error := if Legible n then e else .integerTooLong

end Error

/-- The format a caller names. -/
def Format.parse (given : Value) : Except Error Format :=
  match given.orEmpty with
  | .text t => match Format.parse? t with
    | some f => .ok f
    | none => .error (.unknownFormat given)
  | _ => .error (.unknownFormat given)

/-- The label of a category, for a value that should be one. -/
def Category.describe (given : Value) : Except Error Text :=
  match given with
  | .category (.real c) => .ok c.label
  | _ => .error (if given.isLegible then .invalidCategory given else .integerTooLong)

end Findings
