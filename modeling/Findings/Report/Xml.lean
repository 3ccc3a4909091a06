import Findings.Report.Entry
import Findings.Report.Escape

/-!
# XML reports

An element `results` with an element `error` for each finding, which holds an element `location` for each
location.
-/

namespace Findings.Report

def xmlAttributes (e : Entry Text) : Text :=
  "file=\"" ++ xmlAttribute e.file ++ "\" severity=\"" ++ xmlAttribute e.severity ++
    "\" id=\"" ++ xmlAttribute e.id ++ "\" msg=\"" ++ xmlAttribute e.msg ++ "\""

def xmlLocation (l : Location) : Text :=
  "    <location file=\"" ++ xmlAttribute l.file ++ "\" line=\"" ++ Text.ofInt l.line ++ "\"/>"

def xmlLines (e : Entry Text) : List Text :=
  if e.locations.isEmpty then ["  <error " ++ xmlAttributes e ++ "/>"]
  else
    ("  <error " ++ xmlAttributes e ++ ">") :: e.locations.map xmlLocation ++
      [Text.ofString "  </error>"]

/-- The lines before and after the findings. -/
def xmlOpening : List Text := ["<?xml version=\"1.0\" encoding=\"UTF-8\"?>", "<results>"]

def xmlClosing : List Text := ["</results>"]

def xml (entries : List (Entry Text)) : Text :=
  Text.join [.ofChar '\n'] (xmlOpening ++ entries.flatMap xmlLines ++ xmlClosing) ++ [.ofChar '\n']

end Findings.Report
