import Findings.Text.Basic

/-!
# Escaping fields of a report

A field of a text report never spills over its line or its column: tab, newline, carriage return and
backslash are written with a backslash. A surrogate cannot be encoded by any sink; it is written as a
question mark. An attribute of an XML report loses the characters that XML 1.0 cannot hold, and keeps all
others: markup characters become entities, and tab, newline and carriage return character references,
since a reader turns them into spaces otherwise.
-/

namespace Findings.Report

def textChar (c : CodePoint) : Text :=
  if c.isSurrogate then "?"
  else if c = .ofChar '\\' then "\\\\"
  else if c = .ofChar '\t' then "\\t"
  else if c = .ofChar '\n' then "\\n"
  else if c = .ofChar '\r' then "\\r"
  else [c]

/-- A field of a text report. -/
def textField (t : Text) : Text := t.flatMap textChar

/-- The characters of XML 1.0. -/
def isXmlChar (c : CodePoint) : Bool :=
  c.val = 0x09 || c.val = 0x0A || c.val = 0x0D || (0x20 ≤ c.val && c.val < 0xD800) ||
  (0xE000 ≤ c.val && c.val < 0xFFFE) || 0x10000 ≤ c.val

def xmlChar (c : CodePoint) : Text :=
  if c = .ofChar '&' then "&amp;"
  else if c = .ofChar '>' then "&gt;"
  else if c = .ofChar '<' then "&lt;"
  else if c = .ofChar '"' then "&quot;"
  else if c = .ofChar '\'' then "&apos;"
  else if c = .ofChar '\n' then "&#10;"
  else if c = .ofChar '\r' then "&#13;"
  else if c = .ofChar '\t' then "&#9;"
  else [c]

/-- The value of an attribute of an XML report. -/
def xmlAttribute (t : Text) : Text := (t.filter isXmlChar).flatMap xmlChar

end Findings.Report
