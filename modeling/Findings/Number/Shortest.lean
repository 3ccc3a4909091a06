import Findings.Number.Binary64
import Findings.Text.Basic

/-!
# The shortest decimal of a binary64 number

Of the decimals that read back as the number, those with the fewest digits, and of these the nearest.
A decimal reads back when it lies between the midpoints to the two neighbours, or on one of them if the
mantissa is even. On the grid of decimals with a given number of digits the two points around the value
are tried; if any point of the grid reads back, one of these two does.
-/

namespace Findings

/-- `coefficient * 10 ^ exponent`. -/
structure Decimal where
  coefficient : Nat
  exponent : Int
deriving DecidableEq, Repr

/-- The least `k` with `r < 10 ^ k`, for `r` not zero. -/
def Ratio.decimalSize (r : Ratio) : Int :=
  let k : Int := (Nat.toDigits 10 r.num).length - (Nat.toDigits 10 r.den).length
  let bound := Ratio.scale ⟨1, 1⟩ 10 k
  if r.num * bound.den < bound.num * r.den then k else k + 1

namespace Binary64

/-- The decimals that read back as `m * 2 ^ e`: those between the bounds, in units of `2 ^ (e - 2)`. -/
def bounds (m : Nat) (e : Int) : Nat × Nat :=
  (if m = leastNormal ∧ e > minExponent then 4 * m - 1 else 4 * m - 2, 4 * m + 2)

/-- `c * 10 ^ p` reads back as `m * 2 ^ e`. -/
def readsBack (m : Nat) (e p : Int) (c : Nat) : Bool :=
  let (low, high) := bounds m e
  let low := ((Ratio.scale ⟨low, 1⟩ 2 (e - 2)).scale 10 (-p))
  let high := ((Ratio.scale ⟨high, 1⟩ 2 (e - 2)).scale 10 (-p))
  if m % 2 = 0 then low.num ≤ c * low.den && c * high.den ≤ high.num
  else low.num < c * low.den && c * high.den < high.num

/-- The point of the grid `10 ^ p` nearest to `m * 2 ^ e` of those that read back. -/
def gridPoint? (m : Nat) (e p : Int) : Option Nat :=
  let v := (magnitude m e).scale 10 (-p)
  let c := v.floor
  let ordered := if v.round = c then [c, c + 1] else [c + 1, c]
  ordered.find? (readsBack m e p)

/-- The decimal with the fewest digits that reads back as `m * 2 ^ e`, for `m` not zero. -/
def shortest (m : Nat) (e : Int) : Decimal :=
  let size := (magnitude m e).decimalSize
  let grids := (List.range 17).map fun (n : Nat) => size - n - 1
  (grids.findSome? fun p => (gridPoint? m e p).map (Decimal.mk · p)).getD ⟨0, 0⟩

end Binary64

/-- `n` and `k` with the zeros at the end of `n` moved into the power of ten `k`. -/
def Decimal.stripZeros (d : Decimal) : Text × Int :=
  let ds := Text.ofNat d.coefficient
  let kept := (ds.reverse.dropWhile (· = .ofChar '0')).reverse
  (kept, d.exponent + (ds.length - kept.length : Nat))

/-- An exponent of ten: its sign and at least two digits. -/
def exponentText (mark : Text) (k : Int) : Text :=
  mark ++ (if k < 0 then "-" else "+") ++ (Text.ofNat k.natAbs).padLeft 2 '0'

def zeros (n : Nat) : Text := List.replicate n (.ofChar '0')

/-- Digits with the point `point` places after their start; at least one digit on each side. -/
def positional (ds : Text) (point : Int) : Text :=
  if point ≤ 0 then "0." ++ zeros point.natAbs ++ ds
  else
    let n := point.toNat
    if ds.length ≤ n then ds ++ zeros (n - ds.length) ++ ".0"
    else ds.take n ++ "." ++ ds.drop n

/-- Digits with the point after the first and a power of ten. -/
def scientific (ds : Text) (point : Int) : Text :=
  let fraction : Text := if ds.length ≤ 1 then [] else "." ++ ds.drop 1
  ds.take 1 ++ fraction ++ exponentText "e" (point - 1)

/-- How a binary64 number is written: by its shortest decimal, positional from `0.0001` up to but not
including `10 ^ 16`, else with a power of ten. -/
def Binary64.written : Binary64 → Text
  | .nan => "nan"
  | .infinite negative => if negative then "-inf" else "inf"
  | .finite negative m e =>
    let sign : Text := if negative then "-" else ""
    if m = 0 then sign ++ "0.0"
    else
      let (ds, k) := (shortest m e).stripZeros
      let point := ds.length + k
      sign ++ if -4 < point ∧ point ≤ 16 then positional ds point else scientific ds point

end Findings
