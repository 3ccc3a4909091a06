import Findings.Number.Binary64
import Findings.Text.Basic

/-!
# Times of records

A time is a number of seconds since the start of 1970, rounded to microseconds, half to even. It is
written as date and time in UTC, with microseconds only where they are not zero.
-/

namespace Findings.Log

inductive TimeFault where
  | notANumber
  /-- Beyond 64-bit seconds. -/
  | outOfRange
  /-- A year that the calendar cannot count. -/
  | calendarOverflow
  /-- A year before 1 or after 9999. -/
  | yearOutOfRange
deriving DecidableEq, Repr

structure Date where
  year : Int
  month : Nat
  day : Nat
deriving DecidableEq, Repr

/-- The date that is `days` after the first of January 1970. Years are counted from March, in cycles of
400 years with 146097 days. -/
def Date.ofDays (days : Int) : Date :=
  let z := days + 719468
  let cycle := z / 146097
  let dayOfCycle := (z % 146097).toNat
  let yearOfCycle :=
    (dayOfCycle - dayOfCycle / 1460 + dayOfCycle / 36524 - dayOfCycle / 146096) / 365
  let dayOfYear := dayOfCycle - (365 * yearOfCycle + yearOfCycle / 4 - yearOfCycle / 100)
  let monthFromMarch := (5 * dayOfYear + 2) / 153
  let day := dayOfYear - (153 * monthFromMarch + 2) / 5 + 1
  let month := if monthFromMarch < 10 then monthFromMarch + 3 else monthFromMarch - 9
  let year := yearOfCycle + cycle * 400
  ⟨if month ≤ 2 then year + 1 else year, month, day⟩

/-- A point in time: whole seconds, and microseconds after them. -/
structure Time where
  seconds : Int
  micros : Nat := 0
deriving DecidableEq, Repr

/-- The time that a number of seconds stands for. Only its fraction is turned into microseconds, as a
binary64 number, before it is rounded. -/
def Time.ofFloat : Binary64 → Except TimeFault Time
  | .nan => .error .notANumber
  | .infinite _ => .error .outOfRange
  | .finite negative m e =>
    let r := Binary64.magnitude m e
    let whole := r.floor
    let fraction : Nat :=
      match Binary64.ofRatio false ⟨r.num % r.den * 1000000, r.den⟩ with
      | .finite _ m e => (Binary64.magnitude m e).round
      | _ => 0
    let total : Int := ((whole * 1000000 + fraction : Nat) : Int)
    let total := if negative then -total else total
    .ok ⟨total / 1000000, (total % 1000000).toNat⟩

def two (n : Nat) : Text := (Text.ofNat n).padLeft 2 '0'

/-- Date and time in UTC. -/
def Time.utc (t : Time) : Except TimeFault Text :=
  if t.seconds < -9223372036854775808 || 9223372036854775807 < t.seconds then .error .outOfRange
  else
    let d := Date.ofDays (t.seconds / 86400)
    let second := (t.seconds % 86400).toNat
    if d.year < -2147481748 || 2147485547 < d.year then .error .calendarOverflow
    else if d.year < 1 || 9999 < d.year then .error .yearOutOfRange
    else
      let fraction : Text := if t.micros = 0 then [] else "." ++ (Text.ofNat t.micros).padLeft 6 '0'
      .ok ((Text.ofNat d.year.toNat).padLeft 4 '0' ++ "-" ++ two d.month ++ "-" ++ two d.day ++ "T" ++
        two (second / 3600) ++ ":" ++ two (second / 60 % 60) ++ ":" ++ two (second % 60) ++
        fraction ++ "+00:00")

end Findings.Log
