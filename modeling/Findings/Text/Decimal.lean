import Findings.Text.Blank

/-!
# Decimal integers in text

The digits are those of every script that Unicode 14 gives the property Decimal_Number. A number may
have blanks around it, one sign, and single underscores between its digits. There is a limit to the digits
that are read, and the same limit to those that are written.
-/

namespace Findings

/-- The zero of each run of ten decimal digits. -/
def decimalZeros : List Nat :=
  [0x30, 0x660, 0x6F0, 0x7C0, 0x966, 0x9E6, 0xA66, 0xAE6, 0xB66, 0xBE6, 0xC66,
   0xCE6, 0xD66, 0xDE6, 0xE50, 0xED0, 0xF20, 0x1040, 0x1090, 0x17E0, 0x1810, 0x1946,
   0x19D0, 0x1A80, 0x1A90, 0x1B50, 0x1BB0, 0x1C40, 0x1C50, 0xA620, 0xA8D0, 0xA900, 0xA9D0,
   0xA9F0, 0xAA50, 0xABF0, 0xFF10, 0x104A0, 0x10D30, 0x11066, 0x110F0, 0x11136, 0x111D0, 0x112F0,
   0x11450, 0x114D0, 0x11650, 0x116C0, 0x11730, 0x118E0, 0x11950, 0x11C50, 0x11D50, 0x11DA0, 0x16A60,
   0x16AC0, 0x16B50, 0x1D7CE, 0x1D7D8, 0x1D7E2, 0x1D7EC, 0x1D7F6, 0x1E140, 0x1E2F0, 0x1E950, 0x1FBF0]

/-- The value of a decimal digit of any script. -/
def CodePoint.decimalValue? (c : CodePoint) : Option Nat :=
  (decimalZeros.find? fun z => z ≤ c.val && c.val < z + 10).map (c.val - ·)

/-- Digits read on top of `n`, most significant first. -/
def readDigits (n : Nat) : List Nat → Nat
  | [] => n
  | d :: ds => readDigits (10 * n + d) ds

/-- The digits of a run with single underscores between them. -/
def Text.digitRun? : Text → Option (List Nat)
  | [] => none
  | [c] => c.decimalValue?.map ([·])
  | c :: d :: r =>
    match c.decimalValue? with
    | none => none
    | some v =>
      if d = .ofChar '_' then (digitRun? r).map (v :: ·)
      else (digitRun? (d :: r)).map (v :: ·)

/-- A number with more digits than this is neither read nor written. -/
def digitLimit : Nat := 4300

def Text.toNatWithin? (t : Text) : Option Nat :=
  match t.digitRun? with
  | none => none
  | some ds => if ds.length ≤ digitLimit then some (readDigits 0 ds) else none

/-- The integer that `t` spells. ASCII separators do not count as blanks here. -/
def Text.toInt? (t : Text) : Option Int :=
  match t.trimBy fun c => c.isAsciiSpace || c.isWideBlank with
  | [] => none
  | c :: r =>
    if c = .ofChar '-' then (Text.toNatWithin? r).map fun n => -(n : Int)
    else if c = .ofChar '+' then (Text.toNatWithin? r).map Int.ofNat
    else (Text.toNatWithin? (c :: r)).map Int.ofNat

/-- The integer has no more digits than are written. -/
def Legible (n : Int) : Prop := (Text.ofNat n.natAbs).length ≤ digitLimit

instance : DecidablePred Legible := fun n =>
  inferInstanceAs (Decidable ((Text.ofNat n.natAbs).length ≤ digitLimit))

end Findings
