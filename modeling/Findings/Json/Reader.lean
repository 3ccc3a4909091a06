import Findings.Text.Decimal
import Findings.Value

/-!
# Reading JSON

The grammar is JSON's, with the three words `NaN`, `Infinity` and `-Infinity` as numbers besides. Control
characters in a text must be escaped. Of equal keys in an object the last value counts, in the place of
the first key. An escaped high surrogate directly before an escaped low one is read with it as one
character; any other surrogate stays as it is.
-/

namespace Findings.Json

/-- Why a text cannot be read: it is no JSON, an integer has more digits than are read, or lists and
objects are nested too deep. -/
inductive Fault where
  | malformed
  | tooManyDigits
  | tooDeep
deriving DecidableEq, Repr

/-- A part that was read, and the text after it. -/
abbrev Read (α : Type) := Except Fault (α × Text)

def isBlank (c : CodePoint) : Bool := c.isIn " \t\n\r"

def skipBlanks (t : Text) : Text := t.dropWhile isBlank

/-- A character of a text as written: for itself, or by its number. -/
inductive Spelling where
  | plain (c : CodePoint)
  | escaped (c : CodePoint)
deriving DecidableEq, Repr

def hexValue? (c : CodePoint) : Option Nat :=
  if c.isAsciiDigit then some (c.val - 0x30)
  else if 0x61 ≤ c.val && c.val ≤ 0x66 then some (c.val - 0x61 + 10)
  else if 0x41 ≤ c.val && c.val ≤ 0x46 then some (c.val - 0x41 + 10)
  else none

/-- The character after a backslash that stands for another one. -/
def shortEscapeValue? (c : CodePoint) : Option CodePoint :=
  if c.isIn "\"\\/" then some c
  else if c = .ofChar 'b' then some (.ofNat 0x08)
  else if c = .ofChar 'f' then some (.ofNat 0x0C)
  else if c = .ofChar 'n' then some (.ofChar '\n')
  else if c = .ofChar 'r' then some (.ofChar '\r')
  else if c = .ofChar 't' then some (.ofChar '\t')
  else none

/-- Four hexadecimal digits. -/
def hexQuad? (a b c d : CodePoint) : Option CodePoint := do
  let a ← hexValue? a
  let b ← hexValue? b
  let c ← hexValue? c
  let d ← hexValue? d
  pure (.ofNat (((a * 16 + b) * 16 + c) * 16 + d))

/-- The inside of a text, up to and without the closing quotation mark. -/
def readSpellings : Text → Option (List Spelling × Text)
  | [] => none
  | c :: r =>
    if c = .ofChar '"' then some ([], r)
    else if c = .ofChar '\\' then
      match r with
      | [] => none
      | e :: r =>
        if e = .ofChar 'u' then
          match r with
          | h1 :: h2 :: h3 :: h4 :: r =>
            match hexQuad? h1 h2 h3 h4 with
            | none => none
            | some x => (readSpellings r).map fun p => (.escaped x :: p.1, p.2)
          | _ => none
        else
          match shortEscapeValue? e with
          | none => none
          | some x => (readSpellings r).map fun p => (.plain x :: p.1, p.2)
    else if c.val < 0x20 then none
    else (readSpellings r).map fun p => (.plain c :: p.1, p.2)

/-- The characters spelled, with escaped pairs of surrogates joined. -/
def joinSpellings : List Spelling → Text
  | [] => []
  | .plain c :: r => c :: joinSpellings r
  | .escaped high :: .escaped low :: r =>
    if high.isHighSurrogate && low.isLowSurrogate then CodePoint.join high low :: joinSpellings r
    else high :: joinSpellings (.escaped low :: r)
  | .escaped c :: r => c :: joinSpellings r

/-- A text after its opening quotation mark. -/
def readText (t : Text) : Read Text :=
  match readSpellings t with
  | none => .error .malformed
  | some (s, rest) => .ok (joinSpellings s, rest)

/-- The digits at the start of `t`. -/
def takeDigits (t : Text) : List Nat × Text :=
  let (ds, rest) := t.span CodePoint.isAsciiDigit
  (ds.map fun c => c.val - 0x30, rest)

/-- The digits after a decimal point, if a point with digits follows. -/
def takeFraction (t : Text) : Option (List Nat) × Text :=
  match t with
  | [] => (none, t)
  | c :: r =>
    let (ds, rest) := takeDigits r
    if c = .ofChar '.' && !ds.isEmpty then (some ds, rest) else (none, t)

/-- A sign, if one is there; whether it is a minus. -/
def takeSign (t : Text) : Bool × Text :=
  match t with
  | [] => (false, [])
  | c :: r => if c = .ofChar '-' then (true, r) else if c = .ofChar '+' then (false, r) else (false, t)

/-- The power of ten, if one follows. -/
def takeExponent (t : Text) : Option Int × Text :=
  match t with
  | [] => (none, t)
  | c :: r =>
    if c.isIn "eE" then
      let (negative, r) := takeSign r
      let (ds, rest) := takeDigits r
      if ds.isEmpty then (none, t)
      else
        let n : Int := readDigits 0 ds
        (some (if negative then -n else n), rest)
    else (none, t)

/-- The integer part of a number: a zero, or digits that do not start with one. -/
def takeIntegerPart (t : Text) : Option (List Nat × Text) :=
  match takeDigits t with
  | ([], _) => none
  | (0 :: _, _) => some ([0], t.drop 1)
  | (ds, rest) => some (ds, rest)

/-- A number after its sign. -/
def readNumber (negative : Bool) (t : Text) : Read Value :=
  match takeIntegerPart t with
  | none => .error .malformed
  | some (ds, rest) =>
    let (fraction, rest) := takeFraction rest
    let (power, rest) := takeExponent rest
    match fraction, power with
    | none, none =>
      if digitLimit < ds.length then .error .tooManyDigits
      else
        let n : Int := readDigits 0 ds
        .ok (.int (if negative then -n else n), rest)
    | _, _ =>
      let fraction := fraction.getD []
      let n := readDigits 0 (ds ++ fraction)
      .ok (.float (.ofDecimal negative n (power.getD 0 - fraction.length)), rest)

/-- The words that are values. -/
def words : List (Text × Value) :=
  [("null", .null), ("true", .bool true), ("false", .bool false), ("NaN", .float .nan),
   ("Infinity", .float (.infinite false)), ("-Infinity", .float (.infinite true))]

/-- A word or a number. -/
def readScalar (t : Text) : Read Value :=
  match words.find? fun w => t.startsWith w.1 with
  | some (w, v) => .ok (v, t.drop w.length)
  | none =>
    match t with
    | [] => .error .malformed
    | c :: r => if c = .ofChar '-' then readNumber true r else readNumber false t

/-- The items of a list after its bracket, each read by `item`; at least one. -/
def readItems (item : Text → Read Value) : Nat → Text → Read (List Value)
  | 0, _ => .error .malformed
  | n + 1, t =>
    match item t with
    | .error e => .error e
    | .ok (v, r) =>
      match skipBlanks r with
      | [] => .error .malformed
      | c :: r =>
        if c = .ofChar ']' then .ok ([v], r)
        else if c = .ofChar ',' then
          match readItems item n (skipBlanks r) with
          | .error e => .error e
          | .ok (vs, r) => .ok (v :: vs, r)
        else .error .malformed

/-- A key and the colon after it. -/
def readKey (t : Text) : Read Text :=
  match t with
  | [] => .error .malformed
  | c :: r =>
    if c = .ofChar '"' then
      match readText r with
      | .error e => .error e
      | .ok (key, r) =>
        match skipBlanks r with
        | [] => .error .malformed
        | c :: r => if c = .ofChar ':' then .ok (key, skipBlanks r) else .error .malformed
    else .error .malformed

/-- The fields of an object after its brace; at least one. -/
def readFields (item : Text → Read Value) : Nat → Text → Read (List (Text × Value))
  | 0, _ => .error .malformed
  | n + 1, t =>
    match readKey t with
    | .error e => .error e
    | .ok (key, r) =>
      match item r with
      | .error e => .error e
      | .ok (v, r) =>
        match skipBlanks r with
        | [] => .error .malformed
        | c :: r =>
          if c = .ofChar '\x7d' then .ok ([(key, v)], r)
          else if c = .ofChar ',' then
            match readFields item n (skipBlanks r) with
            | .error e => .error e
            | .ok (fs, r) => .ok ((key, v) :: fs, r)
          else .error .malformed

/-- Of equal keys the last value, in the place of the first key. -/
def mergeFields (fields : List (Text × Value)) : List (Text × Value) :=
  fields.foldl (fun fs f => Value.setField fs f.1 f.2) []

/-- A value at the start of a text, with lists and objects nested no deeper than `depth`. -/
def readValue : Nat → Text → Read Value
  | depth, t =>
    match t with
    | [] => .error .malformed
    | c :: r =>
      if c = .ofChar '"' then
        match readText r with
        | .error e => .error e
        | .ok (s, r) => .ok (.text s, r)
      else if c = .ofChar '[' then
        match depth with
        | 0 => .error .tooDeep
        | depth + 1 =>
          let r := skipBlanks r
          if r.startsWithChar ']' then .ok (.list [], r.drop 1)
          else match readItems (readValue depth) r.length r with
            | .error e => .error e
            | .ok (vs, r) => .ok (.list vs, r)
      else if c = .ofChar '\x7b' then
        match depth with
        | 0 => .error .tooDeep
        | depth + 1 =>
          let r := skipBlanks r
          if r.startsWithChar '\x7d' then .ok (.object [], r.drop 1)
          else match readFields (readValue depth) r.length r with
            | .error e => .error e
            | .ok (fs, r) => .ok (.object (mergeFields fs), r)
      else readScalar t

/-- The value that the whole of `t` spells, with lists and objects nested no deeper than `depth`. -/
def read (depth : Nat) (t : Text) : Except Fault Value :=
  match readValue depth (skipBlanks t) with
  | .error e => .error e
  | .ok (v, r) => if (skipBlanks r).isEmpty then .ok v else .error .malformed

end Findings.Json
