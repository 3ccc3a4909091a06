import Findings.Text.Utf8

/-!
# Encodings

Text is sent in UTF-8, UTF-16 or UTF-32, the latter two in either order of octets. A mark at the start
tells which it is. Without one, the first two characters are taken to be ASCII, so that null octets among
the first four tell. In units of 16 bits, a high surrogate and a low one behind it are one character; any
other surrogate stays as it is.
-/

namespace Findings

/-- Which octet of a unit comes first. -/
inductive OctetOrder where
  | little
  | big
deriving DecidableEq, Repr

inductive Encoding where
  | utf8
  | utf16 (order : OctetOrder)
  | utf32 (order : OctetOrder)
deriving DecidableEq, Repr

namespace OctetOrder

/-- The unit of two octets. -/
def pair (a b : UInt8) : OctetOrder → Nat
  | little => b.toNat * 256 + a.toNat
  | big => a.toNat * 256 + b.toNat

/-- The unit of four octets. -/
def quad (a b c d : UInt8) : OctetOrder → Nat
  | little => little.pair c d * 65536 + little.pair a b
  | big => big.pair a b * 65536 + big.pair c d

end OctetOrder

namespace Encoding

/-- The encoding of octets without a mark. -/
def ofNulls : List UInt8 → Encoding
  | [0, _] => .utf16 .big
  | [_, 0] => .utf16 .little
  | a :: b :: c :: d :: _ =>
    if a = 0 then (if b = 0 then .utf32 .big else .utf16 .big)
    else if b = 0 then (if c = 0 && d = 0 then .utf32 .little else .utf16 .little)
    else .utf8
  | _ => .utf8

/-- The encoding of octets, and the octets behind the mark if there is one. -/
def detect : List UInt8 → Encoding × List UInt8
  | 0x00 :: 0x00 :: 0xFE :: 0xFF :: r => (.utf32 .big, r)
  | 0xFF :: 0xFE :: 0x00 :: 0x00 :: r => (.utf32 .little, r)
  | 0xFE :: 0xFF :: r => (.utf16 .big, r)
  | 0xFF :: 0xFE :: r => (.utf16 .little, r)
  | 0xEF :: 0xBB :: 0xBF :: r => (.utf8, r)
  | bs => (ofNulls bs, bs)

/-- The units of 16 bits, if they come out even. -/
def units? (order : OctetOrder) : List UInt8 → Option (List CodePoint)
  | [] => some []
  | [_] => none
  | a :: b :: r => (units? order r).map (.ofNat (order.pair a b) :: ·)

/-- The characters of units, with pairs of surrogates joined. -/
def joinUnits : List CodePoint → Text
  | [] => []
  | [c] => [c]
  | high :: low :: r =>
    if high.isHighSurrogate && low.isLowSurrogate then CodePoint.join high low :: joinUnits r
    else high :: joinUnits (low :: r)

/-- The characters of units of 32 bits, if they come out even and none is past the last code point. -/
def wide? (order : OctetOrder) : List UInt8 → Option Text
  | [] => some []
  | a :: b :: c :: d :: r =>
    if order.quad a b c d < 0x110000 then (wide? order r).map (.ofNat (order.quad a b c d) :: ·)
    else none
  | _ => none

def decode? : Encoding → List UInt8 → Option Text
  | utf8, bs => Utf8.decode? bs
  | utf16 order, bs => (units? order bs).map joinUnits
  | utf32 order, bs => wide? order bs

/-- The text of octets whose encoding is not told. -/
def decodeDetected? (bs : List UInt8) : Option Text := (detect bs).1.decode? (detect bs).2

end Encoding
end Findings
