import Findings.Number.Shortest

/-!
# Decimals with a given number of places

A binary64 number is rounded exactly, half to even: to a number of places after the point, or to a number
of digits in front of a power of ten. The general form takes the power of ten where the fixed one would
need many places, and drops zeros at the end.
-/

namespace Findings

/-- `n` as digits with `places` of them after the point; `point` keeps a point without digits after it. -/
def pointed (n places : Nat) (point : Bool) : Text :=
  let ds := (Text.ofNat n).padLeft (places + 1) '0'
  let whole := ds.take (ds.length - places)
  let fraction : Text := if places = 0 && !point then [] else "." ++ ds.drop (ds.length - places)
  whole ++ fraction

/-- `r` with `places` digits after the point. -/
def Ratio.fixed (r : Ratio) (places : Nat) (point : Bool) : Text :=
  pointed (r.scale 10 places).round places point

/-- `r` as `places + 1` digits and the power of ten of the first one. -/
def Ratio.rounded (r : Ratio) (places : Nat) : Nat × Int :=
  if r.num = 0 then (0, 0)
  else
    let k := r.decimalSize - 1
    let n := (r.scale 10 (places - k)).round
    if n = Nat.pow 10 (places + 1) then (Nat.pow 10 places, k + 1) else (n, k)

def Ratio.powered (r : Ratio) (places : Nat) (point : Bool) : Text :=
  let (n, k) := r.rounded places
  pointed n places point ++ exponentText "e" k

/-- `t` without zeros at its end, and without a point before them. -/
def dropTrailingZeros (t : Text) : Text :=
  if t.contains (.ofChar '.') then
    let kept := t.reverse.dropWhile (· = .ofChar '0')
    (if kept.head? = some (.ofChar '.') then kept.drop 1 else kept).reverse
  else t

/-- `r` with `digits` digits, with a power of ten below `0.0001` and from `10 ^ digits` on. -/
def Ratio.general (r : Ratio) (digits : Nat) (point : Bool) : Text :=
  let places := digits - 1
  let (n, k) := r.rounded places
  if -4 ≤ k && k < (max digits 1 : Nat) then
    let t := r.fixed (places - k).toNat point
    if point then t else dropTrailingZeros t
  else
    let t := pointed n places point
    (if point then t else dropTrailingZeros t) ++ exponentText "e" k

end Findings
