/-!
# Binary64 numbers

Numbers of the IEEE format binary64 as exact mathematical values: a mantissa below `2 ^ 53` and a power
of two. Rounding is done on ratios of naturals, to the nearest value and to the even mantissa on a tie.
-/

namespace Findings

/-- `finite negative m e` is `m * 2 ^ e`, or its negative. -/
inductive Binary64 where
  | finite (negative : Bool) (mantissa : Nat) (exponent : Int)
  | infinite (negative : Bool)
  | nan
deriving DecidableEq, Repr

/-- `num / den` rounded to the nearest natural, to the even one on a tie. -/
def roundDiv (num den : Nat) : Nat :=
  let q := num / den
  let r := num % den
  if 2 * r < den then q
  else if den < 2 * r then q + 1
  else q + q % 2

/-- A ratio of naturals. -/
structure Ratio where
  num : Nat
  den : Nat
deriving DecidableEq, Repr

namespace Ratio

/-- `r * b ^ k`. -/
def scale (r : Ratio) (b : Nat) : Int → Ratio
  | .ofNat k => ⟨r.num * Nat.pow b k, r.den⟩
  | .negSucc k => ⟨r.num, r.den * Nat.pow b (k + 1)⟩

def round (r : Ratio) : Nat := roundDiv r.num r.den

def floor (r : Ratio) : Nat := r.num / r.den

/-- The greatest `k` with `2 ^ k ≤ r`, for `r` not zero. -/
def log2 (r : Ratio) : Int :=
  let k : Int := r.num.log2 - r.den.log2
  let low := Ratio.scale ⟨1, 1⟩ 2 k
  if low.num * r.den ≤ r.num * low.den then k else k - 1

end Ratio

namespace Binary64

/-- The least exponent, that of the subnormal numbers. -/
def minExponent : Int := -1074

def maxExponent : Int := 971

/-- The least mantissa of a normal number, `2 ^ 52`. -/
def leastNormal : Nat := 0x10000000000000

/-- The number nearest to `r`. -/
def ofRatio (negative : Bool) (r : Ratio) : Binary64 :=
  if r.num = 0 then .finite negative 0 minExponent
  else
    let e := max (r.log2 - 52) minExponent
    let m := (r.scale 2 (-e)).round
    let (m, e) := if m = 2 * leastNormal then (leastNormal, e + 1) else (m, e)
    if e > maxExponent then .infinite negative else .finite negative m e

/-- The number nearest to `n * 10 ^ k`. -/
def ofDecimal (negative : Bool) (n : Nat) (k : Int) : Binary64 :=
  let size : Int := (Nat.toDigits 10 n).length + k
  if n = 0 || size < -330 then .finite negative 0 minExponent
  else if 310 < size then .infinite negative
  else ofRatio negative (Ratio.scale ⟨n, 1⟩ 10 k)

def ofInt (n : Int) : Binary64 := ofRatio (n < 0) ⟨n.natAbs, 1⟩

def isZero : Binary64 → Bool
  | .finite _ m _ => m = 0
  | _ => false

/-- The size of `m * 2 ^ e`. -/
def magnitude (m : Nat) (e : Int) : Ratio := Ratio.scale ⟨m, 1⟩ 2 e

/-- The integer part, toward zero; of finite numbers only. -/
def truncate? : Binary64 → Option Int
  | .finite negative m e =>
    let n : Int := (magnitude m e).floor
    some (if negative then -n else n)
  | _ => none

/-- A finite number without fractional part. -/
def isWhole : Binary64 → Bool
  | .finite _ m e => (magnitude m e).num % (magnitude m e).den = 0
  | _ => false

end Binary64
end Findings
