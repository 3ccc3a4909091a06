import Findings.Text.Basic

/-!
# Blanks

The blank characters of Unicode: those with the property White_Space, and the four separators
U+001C to U+001F.
-/

namespace Findings

/-- Blanks outside ASCII. -/
def CodePoint.isWideBlank (c : CodePoint) : Bool :=
  c.val = 0x85 || c.val = 0xA0 || c.val = 0x1680 || (0x2000 ≤ c.val && c.val ≤ 0x200A) ||
  c.val = 0x2028 || c.val = 0x2029 || c.val = 0x202F || c.val = 0x205F || c.val = 0x3000

/-- The space and the five ASCII controls that move the print position. -/
def CodePoint.isAsciiSpace (c : CodePoint) : Bool :=
  (0x09 ≤ c.val && c.val ≤ 0x0D) || c.val = 0x20

def CodePoint.isBlank (c : CodePoint) : Bool :=
  c.isAsciiSpace || (0x1C ≤ c.val && c.val ≤ 0x1F) || c.isWideBlank

/-- `t` without the characters at its two ends that satisfy `p`. -/
def Text.trimBy (p : CodePoint → Bool) (t : Text) : Text :=
  ((t.dropWhile p).reverse.dropWhile p).reverse

/-- `t` without the blanks at its two ends. -/
def Text.trim (t : Text) : Text := t.trimBy CodePoint.isBlank

end Findings
