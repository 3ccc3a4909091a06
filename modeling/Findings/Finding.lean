import Findings.Path.Canonical
import Findings.Error
import Findings.Text.Decimal

/-!
# Findings

A finding is what the analysis engine reports about a file: its category, a message, and the locations
that led to it. Message, identifier and label are kept as reported.
-/

namespace Findings

structure Location where
  file : Text
  line : Int := 0
deriving DecidableEq, Repr

structure Finding where
  /-- The file the finding belongs to, in canonical spelling. -/
  file : Text
  category : Category
  message : Value
  backtrace : List Location := []
  id : Value := .text []
  /-- The severity label as reported, before classification. -/
  label : Value
  hidden : Bool := false
deriving Repr

/-- A reference to a stored finding: its file, its position there, and the generation of the store. -/
structure Ref where
  path : Text
  index : Int
  generation : Int := 0
deriving DecidableEq, Repr

/-- The line number that a reported value stands for: its integer part, and zero for a negative number
or a value that is no number. -/
def Value.toLine : Value → Except Error Nat
  | .int n => .ok n.toNat
  | .bool b => .ok b.toNat
  | .text t => .ok ((t.toInt?.getD 0).toNat)
  | .float (.infinite _) => .error .infiniteLine
  | .float x => .ok ((x.truncate?.getD 0).toNat)
  | _ => .ok 0

/-- The canonical spelling of a reported file; what does not count as given is the empty path. -/
def Value.toCanonicalPath (v : Value) : Except Error Text :=
  match v.orEmpty with
  | .text t => .ok (Path.canonical t)
  | _ => .error .fileNotText

end Findings
