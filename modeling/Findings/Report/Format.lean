import Findings.Text.Blank

/-!
# Report formats
-/

namespace Findings

/-- The formats in which a report can be written. -/
inductive Format where
  | text
  | xml
  | json
deriving DecidableEq, Repr

namespace Format

def all : List Format := [text, xml, json]

def name : Format → Text
  | text => "text"
  | xml => "xml"
  | json => "json"

/-- The format of exactly this name. -/
def ofName? (t : Text) : Option Format := all.find? fun f => f.name = t

/-- The format that `t` names, blanks around it and capitals allowed. No other letter has a small form
in the alphabet of the names, so only ASCII capitals matter. -/
def parse? (t : Text) : Option Format := ofName? t.trim.lower

end Format
end Findings
