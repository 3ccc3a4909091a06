import Findings.Number.Fixed
import Findings.Value

/-!
# Message templates

A message is given as a template and arguments. A directive starts with a percent sign: a key in
parentheses, flags, a width, a precision and a letter that says how the argument is written. A star takes
the width or the precision from the arguments. Every argument must be used, unless they are the fields of
one object; a template without arguments is the message itself.
-/

namespace Findings.Log

/-- Why a template cannot be filled in. -/
inductive TemplateFault where
  /-- An argument does not suit its directive, or there are too few or too many. -/
  | unsuited
  | malformed
  | outOfRange
  | unknownKey
  /-- A width that no text can have. -/
  | tooWide
  /-- An integer with too many digits to be written. -/
  | integerTooLong
deriving DecidableEq, Repr

/-- What keys refer to. -/
inductive Keys where
  | nothing
  /-- A list, which is looked at but has no value for any key. -/
  | list
  | fields (fs : List (Text × Value))

def Keys.isNothing : Keys → Bool
  | nothing => true
  | _ => false

/-- The arguments not used yet, and what keys refer to. -/
structure Arguments where
  rest : List Value
  keys : Keys := .nothing

/-- The arguments of a list. Without arguments a template is not filled in; the fields of a single object
are found by their keys. -/
def Arguments.ofList? : List Value → Option Arguments
  | [] => none
  | [.object (f :: fs)] => some ⟨[.object (f :: fs)], .fields (f :: fs)⟩
  | vs => some { rest := vs }

/-- A single value in the place of all arguments. -/
def Arguments.ofValue? (v : Value) : Option Arguments :=
  if !v.isGiven then none
  else match v with
  | .object fs => some ⟨[v], .fields fs⟩
  | .list _ => some ⟨[v], .list⟩
  | _ => some { rest := [v] }

def Arguments.next (a : Arguments) : Except TemplateFault (Value × Arguments) :=
  match a.rest with
  | [] => .error .unsuited
  | v :: vs => .ok (v, { a with rest := vs })

structure Flags where
  left : Bool := false
  sign : Bool := false
  blank : Bool := false
  alternate : Bool := false
  zero : Bool := false

structure Directive where
  flags : Flags := {}
  width : Nat := 0
  precision : Option Nat := none
  letter : Char

/-! ## Writing one argument -/

/-- A written number in parts: its sign, what stands before the digits, and the digits. -/
structure Parts where
  sign : Text := []
  mark : Text := []
  body : Text

/-- The parts filled up to the width of a directive: with zeros behind sign and mark, or with blanks. -/
def Parts.fill (p : Parts) (d : Directive) (zero : Bool) : Text :=
  let used := p.sign.length + p.mark.length + p.body.length
  let pad (c : Char) : Text := List.replicate (d.width - used) (.ofChar c)
  if d.flags.left then p.sign ++ p.mark ++ p.body ++ pad ' '
  else if zero then p.sign ++ p.mark ++ pad '0' ++ p.body
  else pad ' ' ++ p.sign ++ p.mark ++ p.body

def signText (f : Flags) (negative : Bool) : Text :=
  if negative then "-" else if f.sign then "+" else if f.blank then " " else ""

def upper (t : Text) : Text :=
  t.map fun c => if 0x61 ≤ c.val && c.val ≤ 0x7A then .ofNat (c.val - 32) else c

def toInteger (v : Value) : Except TemplateFault Int :=
  match v with
  | .int n => .ok n
  | .bool b => .ok b.toNat
  | _ => .error .unsuited

/-- The integer part of a number. -/
def toIntegerPart (v : Value) : Except TemplateFault Int :=
  match v with
  | .float .nan => .error .malformed
  | .float (.infinite _) => .error .outOfRange
  | .float x => .ok (x.truncate?.getD 0)
  | v => toInteger v

def integerParts (d : Directive) (base : Nat) (mark : Text) (n : Int) : Parts where
  sign := signText d.flags (n < 0)
  mark := if d.flags.alternate then mark else []
  body := (Text.digits base n.natAbs).padLeft (d.precision.getD 0) '0'

def toFloat (v : Value) : Except TemplateFault Binary64 :=
  match v with
  | .float x => .ok x
  | v => match toInteger v with
    | .error e => .error e
    | .ok n => match Binary64.ofInt n with
      | .infinite _ => .error .outOfRange
      | x => .ok x

def floatParts (d : Directive) (x : Binary64) : Parts :=
  let places := d.precision.getD 6
  match x with
  | .nan => { sign := signText d.flags false, body := "nan" }
  | .infinite negative => { sign := signText d.flags negative, body := "inf" }
  | .finite negative m e =>
    let r := Binary64.magnitude m e
    let body :=
      if d.letter = 'f' || d.letter = 'F' then r.fixed places d.flags.alternate
      else if d.letter = 'e' || d.letter = 'E' then r.powered places d.flags.alternate
      else r.general places d.flags.alternate
    { sign := signText d.flags negative, body }

def toCharacter (v : Value) : Except TemplateFault CodePoint :=
  match v with
  | .text [c] => .ok c
  | v => match toInteger v with
    | .error e => .error e
    | .ok n => if 0 ≤ n ∧ n < 0x110000 then .ok (.ofNat n.toNat) else .error .outOfRange

def cut (d : Directive) (t : Text) : Text :=
  match d.precision with
  | none => t
  | some n => t.take n

/-- A value that is spelled `t`, if all integers in it can be written. -/
def Directive.spell (d : Directive) (v : Value) (t : Text) : Except TemplateFault Text :=
  if v.isLegible then .ok (Parts.fill { body := cut d t } d false) else .error .integerTooLong

/-- The integer part of a number, if it can be written. Only decimal digits are limited. -/
def toDecimal (v : Value) : Except TemplateFault Int :=
  match toIntegerPart v with
  | .error e => .error e
  | .ok n => if Legible n then .ok n else .error .integerTooLong

/-- An argument as its directive writes it. -/
def Directive.write (d : Directive) (v : Value) : Except TemplateFault Text :=
  match d.letter with
  | 's' => d.spell v v.display
  | 'r' => d.spell v v.written
  | 'a' => d.spell v (v.writtenWith Text.quotedAscii)
  | 'd' | 'i' | 'u' => (toDecimal v).map fun n => (integerParts d 10 [] n).fill d d.flags.zero
  | 'o' => (toInteger v).map fun n => (integerParts d 8 "0o" n).fill d d.flags.zero
  | 'x' => (toInteger v).map fun n => (integerParts d 16 "0x" n).fill d d.flags.zero
  | 'X' => (toInteger v).map fun n => upper ((integerParts d 16 "0x" n).fill d d.flags.zero)
  | 'e' | 'f' | 'g' => (toFloat v).map fun x => (floatParts d x).fill d d.flags.zero
  | 'E' | 'F' | 'G' => (toFloat v).map fun x => upper ((floatParts d x).fill d d.flags.zero)
  | 'c' => (toCharacter v).map fun c => Parts.fill { body := [c] } d false
  | _ => .error .malformed

/-! ## Reading a directive -/

/-- A key, up to the parenthesis that closes the first one. -/
def takeKey : Nat → Text → Option (Text × Text)
  | _, [] => none
  | depth, c :: r =>
    if c = .ofChar ')' then
      match depth with
      | 0 => some ([], r)
      | depth + 1 => (takeKey depth r).map fun p => (c :: p.1, p.2)
    else
      let depth := if c = .ofChar '(' then depth + 1 else depth
      (takeKey depth r).map fun p => (c :: p.1, p.2)

/-- The arguments a directive starts with: those at hand, or the value of its key. -/
def takeArguments (a : Arguments) (t : Text) : Except TemplateFault (Arguments × Text) :=
  if t.startsWithChar '(' then
    match a.keys, takeKey 0 (t.drop 1) with
    | .nothing, _ => .error .unsuited
    | _, none => .error .malformed
    | .list, _ => .error .unsuited
    | .fields fields, some (key, rest) => match Value.field? fields key with
      | none => .error .unknownKey
      | some v => .ok ({ a with rest := [v] }, rest)
  else .ok (a, t)

def takeFlags (f : Flags) : Text → Flags × Text
  | [] => (f, [])
  | c :: r =>
    if c = .ofChar '-' then takeFlags { f with left := true } r
    else if c = .ofChar '+' then takeFlags { f with sign := true } r
    else if c = .ofChar ' ' then takeFlags { f with blank := true } r
    else if c = .ofChar '#' then takeFlags { f with alternate := true } r
    else if c = .ofChar '0' then takeFlags { f with zero := true } r
    else (f, c :: r)

/-- The greatest width that is taken. -/
def widthLimit : Nat := 0x7FFFFFFFFFFFFFFF

/-- The greatest precision that is taken. -/
def precisionLimit : Nat := 0x7FFFFFFF

/-- The greatest width that a text can have. -/
def lengthLimit : Nat := 0x7FFFFFFF

/-- A number up to `limit` or a star; zero if there is neither. -/
def takeSize (limit : Nat) (a : Arguments) (t : Text) :
    Except TemplateFault (Int × Arguments × Text) :=
  if t.startsWithChar '*' then
    match a.next with
    | .error e => .error e
    | .ok (v, a) => match toInteger v with
      | .error e => .error e
      | .ok n => if n < -limit - 1 || limit < n then .error .outOfRange else .ok (n, a, t.drop 1)
  else
    let ds := t.takeWhile CodePoint.isAsciiDigit
    let n := ds.foldl (fun n c => 10 * n + (c.val - 0x30)) 0
    if limit < n then .error .malformed else .ok (n, a, t.drop ds.length)

/-- A point and a precision, if a point follows. -/
def takePrecision (a : Arguments) (t : Text) :
    Except TemplateFault (Option Nat × Arguments × Text) :=
  if t.startsWithChar '.' then
    match takeSize precisionLimit a (t.drop 1) with
    | .error e => .error e
    | .ok (n, a, rest) => .ok (some n.toNat, a, rest)
  else .ok (none, a, t)

/-- A size letter, which changes nothing. -/
def dropSizeLetter (t : Text) : Text :=
  match t with
  | [] => []
  | c :: r => if c.isIn "hlL" then r else t

/-- An argument as its directive writes it, if that is not too wide. A width below what is taken counts
for nothing. -/
def Directive.writeWithin (d : Directive) (v : Value) : Except TemplateFault Text :=
  match Directive.write { d with width := 0 } v with
  | .error e => .error e
  | .ok narrow =>
    if widthLimit < d.width then .ok narrow
    else if lengthLimit < d.width then .error .tooWide
    else d.write v

/-- A directive after its percent sign: what it writes, and what is left. A percent sign directly behind
the first one stands for itself. -/
def directive (a : Arguments) (t : Text) : Except TemplateFault (Text × Arguments × Text) := do
  if t.startsWithChar '%' then .ok ("%", a, t.drop 1)
  else
    let (a, t) ← takeArguments a t
    let (flags, t) := takeFlags {} t
    let (width, a, t) ← takeSize widthLimit a t
    let flags := if width < 0 then { flags with left := true } else flags
    let (precision, a, t) ← takePrecision a t
    match dropSizeLetter t with
    | [] => .error .malformed
    | c :: rest =>
      let (v, a) ← a.next
      let written ← Directive.writeWithin ⟨flags, width.natAbs, precision, Char.ofNat c.val⟩ v
      .ok (written, a, rest)

/-! ## The message -/

/-- The text of a template, whose directives number fewer than the first argument. -/
def expand : Nat → Arguments → Text → Except TemplateFault Text
  | 0, _, _ => .error .malformed
  | n + 1, a, t =>
    let (plain, rest) := t.span (· ≠ .ofChar '%')
    match rest with
    | [] => if a.rest.isEmpty || !a.keys.isNothing then .ok plain else .error .unsuited
    | _ :: r =>
      match directive a r with
      | .error e => .error e
      | .ok (written, a, r) => (expand n a r).map fun tail => plain ++ written ++ tail

/-- The message of a template and its arguments, if there are any. -/
def message (template : Text) : Option Arguments → Except TemplateFault Text
  | none => .ok template
  | some a => expand (template.length + 1) a template

end Findings.Log
