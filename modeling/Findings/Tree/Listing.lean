import Findings.Report.Json
import Findings.Tree.Basic

/-!
# The listing as a value

Findings, references and rows as objects, for hosts that pass them on.
-/

namespace Findings

def Ref.fields (r : Ref) : List (Text × Value) :=
  [("path", .text r.path), ("index", .int r.index), ("generation", .int r.generation)]

def Finding.fields (f : Finding) : List (Text × Value) :=
  [("file", .text f.file), ("category", .text f.category.label), ("label", f.label),
   ("message", f.message), ("id", f.id),
   ("backtrace", .list (f.backtrace.map Report.locationValue)), ("hidden", .bool f.hidden)]

namespace Tree

def FindingRow.value (r : FindingRow) : Value :=
  .object (r.finding.fields ++ [(Text.ofString "ref", .object r.ref.fields)])

def FileRow.value (r : FileRow) : Value :=
  .object [(Text.ofString "file", .text r.file), (Text.ofString "path", .text r.path),
    (Text.ofString "hidden", .bool r.hidden),
    (Text.ofString "findings", .list (r.findings.map FindingRow.value))]

end Tree
end Findings
