import Findings.Value

/-!
# Writing JSON

Three layouts share one way of writing texts and numbers. Reports are indented by two, log lines stand on
one line with blanks after commas and colons, and both escape every character that is not printable ASCII;
response bodies have no blanks and leave characters outside ASCII as they are. Numbers that are not finite
are written `NaN`, `Infinity` and `-Infinity`. A category code is written as the text that displays it.
-/

namespace Findings.Json

/-- `\u` and four hexadecimal digits. -/
def unicodeEscape (n : Nat) : Text := "\\u" ++ Text.hex 4 n

/-- The one-letter escapes, and the escaped quotation mark and backslash. -/
def shortEscape? (c : CodePoint) : Option Text :=
  if c = .ofChar '"' then some "\\\""
  else if c = .ofChar '\\' then some "\\\\"
  else if c = .ofChar '\n' then some "\\n"
  else if c = .ofChar '\r' then some "\\r"
  else if c = .ofChar '\t' then some "\\t"
  else if c.val = 0x0C then some "\\f"
  else if c.val = 0x08 then some "\\b"
  else none

/-- The escape of a character by number; two surrogates stand for one outside the basic plane. -/
def numericEscape (c : CodePoint) : Text :=
  if c.val ≤ 0xFFFF then unicodeEscape c.val
  else unicodeEscape c.highHalf.val ++ unicodeEscape c.lowHalf.val

/-- A character in a text; `plain` tells which ones need no numeric escape. -/
def writeChar (plain : CodePoint → Bool) (c : CodePoint) : Text :=
  match shortEscape? c with
  | some e => e
  | none => if plain c then [c] else numericEscape c

def writeText (plain : CodePoint → Bool) (t : Text) : Text :=
  "\"" ++ t.flatMap (writeChar plain) ++ "\""

def isPrintableAscii (c : CodePoint) : Bool := 0x20 ≤ c.val && c.val ≤ 0x7E

def isNoControl (c : CodePoint) : Bool := 0x20 ≤ c.val

def writeFloat : Binary64 → Text
  | .nan => "NaN"
  | .infinite negative => if negative then "-Infinity" else "Infinity"
  | x => x.written

/-- What is written of a value on one line. -/
structure Style where
  plain : CodePoint → Bool
  comma : Text
  colon : Text

/-- The style of log lines. -/
def Style.spaced : Style := ⟨isPrintableAscii, ", ", ": "⟩

/-- The style of response bodies. -/
def Style.compact : Style := ⟨isNoControl, ",", ":"⟩

mutual

def write (s : Style) : Value → Text
  | .null => "null"
  | .bool b => if b then "true" else "false"
  | .int n => Text.ofInt n
  | .float x => writeFloat x
  | .text t => writeText s.plain t
  | .category c => writeText s.plain c.display
  | .list items => "[" ++ Text.join s.comma (writeItems s items) ++ "]"
  | .object fields => "\x7b" ++ Text.join s.comma (writeFields s fields) ++ "\x7d"

def writeItems (s : Style) : List Value → List Text
  | [] => []
  | v :: vs => write s v :: writeItems s vs

def writeFields (s : Style) : List (Text × Value) → List Text
  | [] => []
  | (k, v) :: fs => (writeText s.plain k ++ s.colon ++ write s v) :: writeFields s fs

end

/-- A new line indented to `level`. -/
def newline (level : Nat) : Text := .ofChar '\n' :: List.replicate (2 * level) (.ofChar ' ')

/-- Parts one to a line between two brackets; no parts need no line. -/
def block (level : Nat) (opening closing : Text) (parts : List Text) : Text :=
  if parts.isEmpty then opening ++ closing
  else opening ++ newline (level + 1) ++ Text.join ("," ++ newline (level + 1)) parts ++
    newline level ++ closing

mutual

/-- The indented layout, for a value that starts on a line of level `level`. -/
def writeIndented (level : Nat) : Value → Text
  | .list items => block level "[" "]" (writeIndentedItems (level + 1) items)
  | .object fields => block level "\x7b" "\x7d" (writeIndentedFields (level + 1) fields)
  | v => write .spaced v

def writeIndentedItems (level : Nat) : List Value → List Text
  | [] => []
  | v :: vs => writeIndented level v :: writeIndentedItems level vs

def writeIndentedFields (level : Nat) : List (Text × Value) → List Text
  | [] => []
  | (k, v) :: fs =>
    (writeText isPrintableAscii k ++ ": " ++ writeIndented level v) :: writeIndentedFields level fs

end

end Findings.Json
