import Findings.Text.Printable

/-!
# Quoted text

A text in quotes, on one line of printable characters: the quote, the backslash, tab, newline and
carriage return are written with a backslash, any other character that is not printable by its
number in hexadecimal.
-/

namespace Findings.Text

/-- `n` in hexadecimal with at least `width` digits. -/
def hex (width n : Nat) : Text := (digits 16 n).padLeft width '0'

/-- The numeric escape of a code point, in its shortest form. -/
def numericEscape (c : CodePoint) : Text :=
  if c.val ≤ 0xFF then "\\x" ++ hex 2 c.val
  else if c.val ≤ 0xFFFF then "\\u" ++ hex 4 c.val
  else "\\U" ++ hex 8 c.val

/-- Apostrophes, unless the text has an apostrophe and no quotation mark. -/
def quoteMark (t : Text) : CodePoint :=
  if t.contains (.ofChar '\'') && !t.contains (.ofChar '"') then .ofChar '"' else .ofChar '\''

/-- `c` between two marks `mark`; `plain` tells which characters stand for themselves. -/
def quoteChar (plain : CodePoint → Bool) (mark c : CodePoint) : Text :=
  if c = mark || c = .ofChar '\\' then [.ofChar '\\', c]
  else if c = .ofChar '\n' then "\\n"
  else if c = .ofChar '\r' then "\\r"
  else if c = .ofChar '\t' then "\\t"
  else if plain c then [c]
  else numericEscape c

def quoteWith (plain : CodePoint → Bool) (t : Text) : Text :=
  let mark := quoteMark t
  mark :: t.flatMap (quoteChar plain mark) ++ [mark]

/-- The text in quotes. -/
def quoted (t : Text) : Text := quoteWith CodePoint.isPrintable t

/-- The text in quotes, in ASCII only. -/
def quotedAscii (t : Text) : Text := quoteWith (fun c => c.isPrintable && c.val < 0x80) t

end Findings.Text
