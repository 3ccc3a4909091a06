import Findings.Text.Basic

/-!
# UTF-8

Reading stops at the first octet that no character allows there: what was read of the character so far
is one malformed part, and reading goes on with that octet.
-/

namespace Findings.Utf8

/-- The bits of a lead octet, and the range of each octet that must follow it. -/
def lead? (b : Nat) : Option (Nat × List (Nat × Nat)) :=
  let tail := (0x80, 0xBF)
  if b ≤ 0x7F then some (b, [])
  else if b < 0xC2 then none
  else if b ≤ 0xDF then some (b - 0xC0, [tail])
  else if b = 0xE0 then some (0, [(0xA0, 0xBF), tail])
  else if b = 0xED then some (0xD, [(0x80, 0x9F), tail])
  else if b ≤ 0xEF then some (b - 0xE0, [tail, tail])
  else if b = 0xF0 then some (0, [(0x90, 0xBF), tail, tail])
  else if b ≤ 0xF3 then some (b - 0xF0, [tail, tail, tail])
  else if b = 0xF4 then some (4, [(0x80, 0x8F), tail, tail])
  else none

/-- The number spelled by `n` and one octet for each range, or the octets that were taken before one that
is missing or out of its range; and the octets after them. -/
def takeTail (n : Nat) : List (Nat × Nat) → List UInt8 → Except (List UInt8) Nat × List UInt8
  | [], bs => (.ok n, bs)
  | _ :: _, [] => (.error [], [])
  | (low, high) :: ranges, b :: bs =>
    if low ≤ b.toNat && b.toNat ≤ high then
      match takeTail (n * 64 + (b.toNat - 0x80)) ranges bs with
      | (.ok n, rest) => (.ok n, rest)
      | (.error taken, rest) => (.error (b :: taken), rest)
    else (.error [], b :: bs)

/-- A part of a sequence of octets: a character, or octets that spell none. -/
inductive Part where
  | char (c : CodePoint)
  | malformed (octets : List UInt8)
deriving DecidableEq, Repr

/-- At most `n` parts. -/
def parts : Nat → List UInt8 → List Part
  | 0, _ => []
  | _ + 1, [] => []
  | n + 1, b :: bs =>
    match lead? b.toNat with
    | none => .malformed [b] :: parts n bs
    | some (bits, ranges) =>
      match takeTail bits ranges bs with
      | (.ok value, rest) => .char (.ofNat value) :: parts n rest
      | (.error taken, rest) => .malformed (b :: taken) :: parts n rest

/-- All parts; there are no more of them than octets. -/
def partsOf (bs : List UInt8) : List Part := parts bs.length bs

def Part.char? : Part → Option CodePoint
  | char c => some c
  | malformed _ => none

/-- The text, if no part is malformed. -/
def decode? (bs : List UInt8) : Option Text := (partsOf bs).mapM Part.char?

/-- The text, with U+FFFD for each malformed part. -/
def decodeLossy (bs : List UInt8) : Text := (partsOf bs).map fun p => p.char?.getD (.ofNat 0xFFFD)

def encodeChar (c : CodePoint) : List UInt8 :=
  let n := c.val
  let tail (unit : Nat) : UInt8 := .ofNat (0x80 + n / unit % 64)
  if n ≤ 0x7F then [.ofNat n]
  else if n ≤ 0x7FF then [.ofNat (0xC0 + n / 64), tail 1]
  else if n ≤ 0xFFFF then [.ofNat (0xE0 + n / 4096), tail 64, tail 1]
  else [.ofNat (0xF0 + n / 262144), tail 4096, tail 64, tail 1]

def encode (t : Text) : List UInt8 := t.flatMap encodeChar

end Findings.Utf8
