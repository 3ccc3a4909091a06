import Findings.Text.Decimal
import Findings.Value

/-!
# Validation

Values from outside are read as what a field needs. A text must be a text. A truth value may also be zero
or one, or one of the usual words in any case. An integer may also be a truth value, a number without
fractional part, or a numeral: digits with a sign in front, single underscores between them and a fraction
of zeros behind them. Of the zeros at the start of a numeral, and of any underscores among them, only as
many count as are needed to have a digit.
-/

namespace Findings.Validation

/-- What is wrong with a value. -/
inductive Fault where
  | missing
  | textNeeded
  | integerNeeded
  | integerUnreadable
  | integerTooLong
  | integerHasFraction
  | numberNotFinite
  | integerNegative
  | truthValueNeeded
  | truthValueUnreadable
  | listNeeded
  | objectNeeded
  | choiceUnknown
  | malformedJson
deriving DecidableEq, Repr

/-- A fault, the names and positions that lead to the value, and what was given: the value itself, or
for a missing one the object it should be in. -/
structure Issue where
  fault : Fault
  location : List Text
  given : Value := .null
deriving Repr

def asText : Value → Except Fault Text
  | .text t => .ok t
  | _ => .error .textNeeded

def falseWords : List Text := ["0", "off", "f", "false", "n", "no"]

def trueWords : List Text := ["1", "on", "t", "true", "y", "yes"]

def truthOfInt (n : Int) : Except Fault Bool :=
  if n = 0 then .ok false else if n = 1 then .ok true else .error .truthValueUnreadable

/-- Integers outside the 64-bit range are no truth values at all. -/
def isWord (n : Int) : Bool := -9223372036854775808 ≤ n && n ≤ 9223372036854775807

/-- The integer that a number without fractional part is. The bounds of the 64-bit range do not belong to
it here. -/
def wordOfWhole? (x : Binary64) : Option Int :=
  match x.isWhole, x.truncate? with
  | true, some n => if -9223372036854775808 < n && n ≤ 9223372036854775807 then some n else none
  | _, _ => none

def asBool : Value → Except Fault Bool
  | .bool b => .ok b
  | .text t =>
    if falseWords.contains t.lower then .ok false
    else if trueWords.contains t.lower then .ok true
    else .error .truthValueUnreadable
  | .int n => if isWord n then truthOfInt n else .error .truthValueNeeded
  | .float x =>
    match wordOfWhole? x with
    | some n => truthOfInt n
    | none => .error .truthValueNeeded
  | _ => .error .truthValueNeeded

/-! ## Numerals -/

def isNonzeroDigit (c : CodePoint) : Bool := 0x31 ≤ c.val && c.val ≤ 0x39

/-- What is left of a numeral behind its first zeros and underscores, of which `last` is the last one so
far. It stands for a digit where none follows. A second sign may follow. -/
def behindZeros (last : CodePoint) : Text → Option Text
  | [] => some [last]
  | c :: r =>
    if c = .ofChar '0' || c = .ofChar '_' then behindZeros c r
    else if isNonzeroDigit c || c = .ofChar '-' then some (c :: r)
    else if c = .ofChar '.' then some (last :: c :: r)
    else none

/-- A numeral without the zeros it starts with. -/
def dropLeadingZeros : Text → Option Text
  | [] => none
  | c :: r =>
    if c = .ofChar '0' then behindZeros c r
    else if isNonzeroDigit c then some (c :: r)
    else none

/-- A numeral without its fraction, if that is zeros. -/
def dropZeroFraction (t : Text) : Text :=
  let (whole, rest) := t.span (· ≠ .ofChar '.')
  match rest with
  | [] | [_] => t
  | _ :: fraction => if fraction.all (· = .ofChar '0') then whole else t

/-- Two neighbouring underscores. -/
def hasDoubleUnderscore : Text → Bool
  | c :: d :: r => (c = .ofChar '_' && d = .ofChar '_') || hasDoubleUnderscore (d :: r)
  | _ => false

/-- A numeral without its underscores, if each stands alone and none at an end. -/
def dropUnderscores (t : Text) : Text :=
  if t.startsWithChar '_' || t.endsWithChar '_' || hasDoubleUnderscore t then t
  else t.filter (· ≠ .ofChar '_')

/-- The integer of a plain numeral: a minus, if there is one, and digits that start with a zero only if it
is the only one. -/
def readPlain (t : Text) : Except Fault Int :=
  let body := if t.startsWithChar '-' then t.drop 1 else t
  let digits : Text := body.takeWhile CodePoint.isAsciiDigit
  let n : Int := readDigits 0 (digits.map fun c => c.val - 0x30)
  if digits = [] then .error .integerUnreadable
  else if digits.startsWithChar '0' then
    if body.length = 1 then .ok 0 else .error .integerUnreadable
  else if digitLimit < t.length - body.length + digits.length then .error .integerTooLong
  else if digits.length < body.length then .error .integerUnreadable
  else .ok (if t.startsWithChar '-' then -n else n)

/-- The plain form of a numeral without its sign. -/
def plainForm (t : Text) : Option Text :=
  (dropLeadingZeros t).map fun t => dropUnderscores (dropZeroFraction t)

/-- The integer of a numeral. -/
def readNumeral (t : Text) : Except Fault Int :=
  let unsigned := if t.startsWithChar '-' || t.startsWithChar '+' then t.drop 1 else t
  match plainForm unsigned with
  | none => .error .integerUnreadable
  | some plain => readPlain (if t.startsWithChar '-' then .ofChar '-' :: plain else plain)

/-! ## Integers -/

def asInt : Value → Except Fault Int
  | .int n => .ok n
  | .bool b => .ok b.toNat
  | .text t => readNumeral (t.trimBy fun c => c.isAsciiSpace || c.isWideBlank)
  | .float x =>
    match x.truncate? with
    | none => .error .numberNotFinite
    | some _ =>
      if !x.isWhole then .error .integerHasFraction
      else match wordOfWhole? x with
        | some n => .ok n
        | none => .error .integerTooLong
  | _ => .error .integerNeeded

def asNatural (v : Value) : Except Fault Int :=
  match asInt v with
  | .error e => .error e
  | .ok n => if n < 0 then .error .integerNegative else .ok n

/-- A reading, or everything that is wrong. -/
abbrev Checked (α : Type) := Except (List Issue) α

/-- A reading applied to another; the issues of both are kept. -/
def Checked.apply {α β : Type} (f : Checked (α → β)) (a : Checked α) : Checked β :=
  match f, a with
  | .ok f, .ok a => .ok (f a)
  | .error e, .ok _ => .error e
  | .ok _, .error e => .error e
  | .error e, .error e' => .error (e ++ e')

/-- A value at a place, read by `read`. -/
def checkAt {α : Type} (place : List Text) (read : Value → Except Fault α) (v : Value) : Checked α :=
  match read v with
  | .ok a => .ok a
  | .error e => .error [⟨e, place, v⟩]

/-- A field of an object at a place: read by `read` if it is there, else the default if there is one. -/
def field {α : Type} (fields : List (Text × Value)) (place : List Text) (key : Text)
    (read : List Text → Value → Checked α) (default? : Option α) : Checked α :=
  match Value.field? fields key, default? with
  | some v, _ => read (place ++ [key]) v
  | none, some a => .ok a
  | none, none => .error [⟨.missing, place ++ [key], .object fields⟩]

/-- The fields of an object at a place. -/
def objectAt (place : List Text) : Value → Checked (List (Text × Value))
  | .object fields => .ok fields
  | v => .error [⟨.objectNeeded, place, v⟩]

/-- All readings of a list, in order; the issues of all are kept. -/
def Checked.collect {α : Type} : List (Checked α) → Checked (List α)
  | [] => .ok []
  | a :: as => Checked.apply (a.map List.cons) (collect as)

end Findings.Validation
