import Findings.Category
import Findings.Report.Format
import Findings.Text.Decimal
import Findings.Text.Quoted

/-!
# Arguments of the converter

The converter takes one findings file and options. An option may be shortened as long as no other one
starts alike, and its value may stand behind an equals sign or in the next argument. After `--` no argument
is an option; behind an equals sign it stands for no value. Arguments are told apart first, all of them,
and then read from left to right.
-/

namespace Findings.Convert

inductive Switch where
  | help
  | format
  | out
  | checkDirectory
  | fullPath
  | visibleOnly
  | hide
deriving DecidableEq, Repr

namespace Switch

/-- The spellings of the options, in the order in which they are offered. -/
def spellings : List (Text × Switch) :=
  [("-h", help), ("--help", help), ("--format", format), ("--out", out), ("--check-dir", checkDirectory),
   ("--full-path", fullPath), ("--visible-only", visibleOnly), ("--hide", hide)]

def ofSpelling? (t : Text) : Option Switch := (spellings.find? fun e => e.1 = t).map (·.2)

/-- All spellings of an option, as messages name it. -/
def display (s : Switch) : Text :=
  Text.join "/" ((spellings.filter fun e => e.2 = s).map (·.1))

def takesValue : Switch → Bool
  | help | fullPath | visibleOnly => false
  | format | out | checkDirectory | hide => true

/-- The values an option is limited to, if it is. -/
def choices : Switch → List Text
  | format => Format.all.map Format.name
  | hide => Category.all.map Category.label
  | _ => []

end Switch

/-- Why arguments are not carried out: help is asked for, or what is wrong with them. -/
inductive Usage where
  | help
  | ambiguous (given : Text) (spellings : List Text)
  | valueMissing (s : Switch)
  | valueIgnored (s : Switch) (value : Text)
  | noChoice (s : Switch) (value : Text)
  | findingsMissing
  | unrecognized (arguments : List Text)
deriving DecidableEq, Repr

def Usage.message : Usage → Text
  | help => []
  | ambiguous given spellings =>
    "ambiguous option: " ++ given ++ " could match " ++ Text.join ", " spellings
  | valueMissing s => "argument " ++ s.display ++ ": expected one argument"
  | valueIgnored s value =>
    "argument " ++ s.display ++ ": ignored explicit argument " ++ value.quoted
  | noChoice s value =>
    "argument " ++ s.display ++ ": invalid choice: " ++ value.quoted ++ " (choose from " ++
      Text.join ", " (s.choices.map Text.quoted) ++ ")"
  | findingsMissing => "the following arguments are required: findings"
  | unrecognized arguments => "unrecognized arguments: " ++ Text.join " " arguments

/-! ## Telling arguments apart -/

/-- What an argument is by its spelling. -/
inductive Word where
  | operand (t : Text)
  /-- The mark after which no argument is an option. -/
  | separator
  | switch (s : Switch)
  /-- An option with a value behind an equals sign. -/
  | switchWith (s : Switch) (value : Text)
  /-- The short option with letters behind it. -/
  | helpWith (rest : Text)
  | unknown (t : Text)
deriving DecidableEq, Repr

/-- What stands before and after the first equals sign. -/
def splitValue (t : Text) : Text × Option Text :=
  let (name, rest) := t.span (· ≠ .ofChar '=')
  match rest with
  | [] => (name, none)
  | _ :: value => (name, some value)

def Word.ofSwitch (s : Switch) : Option Text → Word
  | none => .switch s
  | some value => .switchWith s value

def shortHelp : Text := "-h"

/-- A minus and digits, with a point before the last of them or without. A line break may follow. -/
def isNegativeNumber (t : Text) : Bool :=
  let isDigit (c : CodePoint) : Bool := c.decimalValue?.isSome
  let body := t.drop 1
  let body := if body.getLast? = some (.ofChar '\n') then body.dropLast else body
  let (whole, rest) := body.span isDigit
  match rest with
  | [] => whole ≠ []
  | c :: fraction => c = .ofChar '.' && fraction ≠ [] && fraction.all isDigit

/-- What an argument is that starts with a minus and is no exact spelling. -/
def wordOfRest (t : Text) : Word :=
  if isNegativeNumber t || t.contains (.ofChar ' ') then .operand t else .unknown t

/-- What an argument before the separator is. -/
def wordOf (t : Text) : Except Usage Word :=
  if !t.startsWithChar '-' then .ok (.operand t)
  else match Switch.ofSpelling? t with
  | some s => .ok (.switch s)
  | none =>
    if t.length = 1 then .ok (.operand t)
    else
      let (name, value) := splitValue t
      match value, Switch.ofSpelling? name with
      | some value, some s => .ok (if name = shortHelp then .helpWith value else .switchWith s value)
      | _, _ =>
        if t.startsWith "--" then
          match Switch.spellings.filter fun e => e.1.startsWith name with
          | [] => .ok (wordOfRest t)
          | [(_, s)] => .ok (.ofSwitch s value)
          | several => .error (.ambiguous t (several.map (·.1)))
        else if t.startsWith shortHelp then .ok (.helpWith (t.drop 2))
        else .ok (wordOfRest t)

/-- What the arguments are. -/
def wordsOf : List Text → Except Usage (List Word)
  | [] => .ok []
  | t :: ts =>
    if t = Text.ofString "--" then .ok (.separator :: ts.map .operand)
    else match wordOf t with
      | .error e => .error e
      | .ok w => (wordsOf ts).map (w :: ·)

/-! ## Reading them -/

structure Options where
  findings : Text
  /-- None if the option was given no value. -/
  format : Option Format := some .xml
  /-- The file to write the report to; none or an empty name is the standard output. -/
  out : Option Text := none
  checkDirectory : Text := []
  fullPath : Bool := false
  visibleOnly : Bool := false
  /-- Each category to hide; none where the option was given no value. -/
  hidden : List (Option Category) := []
deriving DecidableEq, Repr

/-- What has been read so far, and the arguments that have no use. -/
structure Reading where
  options : Options := { findings := [] }
  findings : Option Text := none
  unused : List Text := []

/-- Carries out an option without value. -/
def Reading.turnOn (r : Reading) : Switch → Except Usage Reading
  | .help => .error .help
  | .fullPath => .ok { r with options := { r.options with fullPath := true } }
  | .visibleOnly => .ok { r with options := { r.options with visibleOnly := true } }
  | s => .error (.valueMissing s)

/-- Carries out an option that is given no value. -/
def Reading.setNothing (r : Reading) : Switch → Reading
  | .out => { r with options := { r.options with out := none } }
  | .checkDirectory => { r with options := { r.options with checkDirectory := [] } }
  | .format => { r with options := { r.options with format := none } }
  | .hide => { r with options := { r.options with hidden := r.options.hidden ++ [none] } }
  | _ => r

/-- Carries out an option with its value. -/
def Reading.set (r : Reading) (s : Switch) (value : Text) : Except Usage Reading :=
  if !s.takesValue then .error (.valueIgnored s value)
  else if value = Text.ofString "--" then .ok (r.setNothing s)
  else match s with
  | .out => .ok { r with options := { r.options with out := some value } }
  | .checkDirectory => .ok { r with options := { r.options with checkDirectory := value } }
  | .format => match Format.ofName? value with
    | some f => .ok { r with options := { r.options with format := some f } }
    | none => .error (.noChoice s value)
  | .hide => match Category.ofLabel? value with
    | some c => .ok { r with options := { r.options with hidden := r.options.hidden ++ [some c] } }
    | none => .error (.noChoice s value)
  | s => .error (.valueIgnored s value)

def Reading.leave (r : Reading) (t : Text) : Reading := { r with unused := r.unused ++ [t] }

/-- Letters behind the short option: only more of the same may follow. -/
def helpUsage (rest : Text) : Usage :=
  if rest = [] then .valueIgnored .help []
  else match rest.dropWhile (· = .ofChar 'h') with
  | [] => .help
  | rest => .valueIgnored .help rest

/-- Reads words from left to right. A separator before or behind the findings file belongs to it. -/
def Reading.read (r : Reading) : List Word → Except Usage Reading
  | [] => .ok r
  | .operand t :: .separator :: ws =>
    match r.findings with
    | none => Reading.read { r with findings := some t } ws
    | some _ => Reading.read ((r.leave t).leave "--") ws
  | .operand t :: ws =>
    match r.findings with
    | none => Reading.read { r with findings := some t } ws
    | some _ => Reading.read (r.leave t) ws
  | .separator :: .operand t :: ws =>
    match r.findings with
    | none => Reading.read { r with findings := some t } ws
    | some _ => Reading.read ((r.leave "--").leave t) ws
  | .separator :: ws => Reading.read (r.leave "--") ws
  | .switch s :: .operand t :: ws =>
    if s.takesValue then
      match r.set s t with
      | .error e => .error e
      | .ok r => Reading.read r ws
    else
      match r.turnOn s with
      | .error e => .error e
      | .ok r => Reading.read r (.operand t :: ws)
  | .switch s :: ws =>
    match r.turnOn s with
    | .error e => .error e
    | .ok r => Reading.read r ws
  | .switchWith s value :: ws =>
    match r.set s value with
    | .error e => .error e
    | .ok r => Reading.read r ws
  | .helpWith rest :: _ => .error (helpUsage rest)
  | .unknown t :: ws => Reading.read (r.leave t) ws
termination_by ws => ws.length

/-- The options that the arguments give. -/
def Options.ofArguments (arguments : List Text) : Except Usage Options :=
  match wordsOf arguments with
  | .error e => .error e
  | .ok words => match Reading.read {} words with
    | .error e => .error e
    | .ok r => match r.findings, r.unused with
      | none, _ => .error .findingsMissing
      | some findings, [] => .ok { r.options with findings }
      | some _, unused => .error (.unrecognized unused)

end Findings.Convert
