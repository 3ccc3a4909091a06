/-!
# Text

A text is a list of Unicode code points. Surrogates are code points like any other: a reported file
name or message may hold a lone one, and two of them side by side stay two code points.
-/

namespace Findings

/-- A Unicode code point, surrogates included. -/
structure CodePoint where
  val : Nat
  isLt : val < 0x110000
deriving DecidableEq, Repr

abbrev Text := List CodePoint

namespace CodePoint

/-- The code point with number `n`; a number past the last code point gives U+FFFD. -/
def ofNat (n : Nat) : CodePoint :=
  if h : n < 0x110000 then ⟨n, h⟩ else ⟨0xFFFD, by decide⟩

def ofChar (c : Char) : CodePoint := ofNat c.toNat

instance : Inhabited CodePoint := ⟨ofNat 0⟩

def isHighSurrogate (c : CodePoint) : Bool := 0xD800 ≤ c.val && c.val < 0xDC00

def isLowSurrogate (c : CodePoint) : Bool := 0xDC00 ≤ c.val && c.val < 0xE000

def isSurrogate (c : CodePoint) : Bool := 0xD800 ≤ c.val && c.val < 0xE000

/-- The code point outside the basic plane that a high and a low surrogate stand for in UTF-16. -/
def join (high low : CodePoint) : CodePoint :=
  ofNat (0x10000 + (high.val - 0xD800) * 0x400 + (low.val - 0xDC00))

/-- The surrogates that stand for `c` in UTF-16, for `c` outside the basic plane. -/
def highHalf (c : CodePoint) : CodePoint := ofNat (0xD800 + (c.val - 0x10000) / 0x400)

def lowHalf (c : CodePoint) : CodePoint := ofNat (0xDC00 + (c.val - 0x10000) % 0x400)

/-- Whether `c` is one of the characters of `s`. -/
def isIn (c : CodePoint) (s : String) : Bool := s.toList.any (ofChar · = c)

def isAsciiDigit (c : CodePoint) : Bool := 0x30 ≤ c.val && c.val ≤ 0x39

end CodePoint

namespace Text

def ofString (s : String) : Text := s.toList.map CodePoint.ofChar

instance : Coe String Text := ⟨ofString⟩

/-- The text as a string, each surrogate replaced by a question mark. -/
def toString (t : Text) : String :=
  String.ofList (t.map fun c => if c.isSurrogate then '?' else Char.ofNat c.val)

/-- The text can be written in UTF-8. -/
def isEncodable (t : Text) : Bool := t.all (!·.isSurrogate)

/-- The pieces between the separators; always at least one. -/
def split (sep : CodePoint) : Text → List Text
  | [] => [[]]
  | c :: r =>
    if c = sep then [] :: split sep r
    else match split sep r with
      | [] => [[c]]
      | piece :: pieces => (c :: piece) :: pieces

def join (sep : Text) : List Text → Text
  | [] => []
  | [t] => t
  | t :: ts => t ++ sep ++ join sep ts

def startsWith (t start : Text) : Bool := start.isPrefixOf t

def startsWithChar (t : Text) (c : Char) : Bool := t.head? = some (CodePoint.ofChar c)

def endsWithChar (t : Text) (c : Char) : Bool := t.getLast? = some (CodePoint.ofChar c)

/-- The digits of `n` in base `b`, most significant first; a digit past nine is a lower-case letter. -/
def digits (b n : Nat) : Text := (Nat.toDigits b n).map CodePoint.ofChar

def ofNat (n : Nat) : Text := digits 10 n

def ofInt : Int → Text
  | .ofNat n => ofNat n
  | .negSucc n => "-" ++ ofNat (n + 1)

/-- `t` filled up on the left with `c` to at least `width`. -/
def padLeft (width : Nat) (c : Char) (t : Text) : Text :=
  List.replicate (width - t.length) (CodePoint.ofChar c) ++ t

/-- ASCII capitals become small letters; all else stays. -/
def lower (t : Text) : Text :=
  t.map fun c => if 0x41 ≤ c.val && c.val ≤ 0x5A then .ofNat (c.val + 32) else c

end Text
end Findings
