import Findings.Report.Entry
import Findings.Report.Escape

/-!
# Text reports

A line for each finding, its four fields apart by tabs, and after it a line for each location, which
starts with a tab.
-/

namespace Findings.Report

def tab : Text := [.ofChar '\t']

def textRecord (e : Entry Text) : Text :=
  Text.join tab [textField e.file, textField e.severity, textField e.id, textField e.msg]

def textLocation (l : Location) : Text := tab ++ textField l.file ++ ":" ++ Text.ofInt l.line

def textLines (e : Entry Text) : List Text := textRecord e :: e.locations.map textLocation

def text (entries : List (Entry Text)) : Text :=
  (entries.flatMap textLines).flatMap (· ++ [.ofChar '\n'])

end Findings.Report
