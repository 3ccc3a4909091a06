import Findings.Json.Writer
import Findings.Report.Entry

/-!
# JSON reports

A list with an object for each finding, in the indented layout.
-/

namespace Findings.Report

def locationValue (l : Location) : Value :=
  .object [(Text.ofString "file", .text l.file), (Text.ofString "line", .int l.line)]

def entryValue (e : Entry Value) : Value :=
  .object [(Text.ofString "file", .text e.file), (Text.ofString "severity", .text e.severity),
    (Text.ofString "id", e.id), (Text.ofString "msg", e.msg),
    (Text.ofString "locations", .list (e.locations.map locationValue))]

def json (entries : List (Entry Value)) : Text :=
  Json.writeIndented 0 (.list (entries.map entryValue)) ++ [.ofChar '\n']

end Findings.Report
