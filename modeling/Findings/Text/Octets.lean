import Findings.Text.Utf8

/-!
# Octets as text

To the operating system, a name is a row of octets. As a text it is read as UTF-8, and each octet that is
part of no character is read as a mark: a surrogate from U+DC80 to U+DCFF. Written back, a mark is its
octet again; a text with any other surrogate is no name.
-/

namespace Findings.Octets

def isMark (c : CodePoint) : Bool := 0xDC80 ≤ c.val && c.val ≤ 0xDCFF

/-- The mark of an octet from 0x80 on. -/
def mark (b : UInt8) : CodePoint := .ofNat (0xDC00 + b.toNat)

def ofChar (c : CodePoint) : List UInt8 :=
  if isMark c then [.ofNat (c.val - 0xDC00)] else Utf8.encodeChar c

/-- The octets that a text stands for, if it stands for any. -/
def ofText? (t : Text) : Option (List UInt8) :=
  if t.any fun c => c.isSurrogate && !isMark c then none else some (t.flatMap ofChar)

/-- The text that octets are read as. -/
def toText (bs : List UInt8) : Text :=
  (Utf8.partsOf bs).flatMap fun
    | .char c => [c]
    | .malformed octets => octets.map mark

end Findings.Octets
