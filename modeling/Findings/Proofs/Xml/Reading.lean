import Findings.Proofs.Text.Numerals

/-!
# Reading XML

A reader for XML 1.0 documents without comments, processing instructions, CDATA sections and document type
declarations; it refuses what it does not know. Line ends are normalized first. A document is characters of
XML only: a declaration, which may be missing, and one element with blanks around it. Tags are nested, an
attribute occurs once in a tag, and names are of ASCII characters.

In the value of an attribute a reference stands for its character; any other white space than a reference
becomes a space. Known are the five predefined entities and the numbers of characters in decimal.
-/

namespace Findings.Xml

/-! ## Characters -/

/-- The ranges of the production `Char`. -/
def charRanges : List (Nat × Nat) :=
  [(0x9, 0xA), (0xD, 0xD), (0x20, 0xD7FF), (0xE000, 0xFFFD), (0x10000, 0x10FFFF)]

def isChar (c : CodePoint) : Bool := charRanges.any fun r => r.1 ≤ c.val && c.val ≤ r.2

/-- The production `S`. -/
def isSpace (c : CodePoint) : Bool := c.isIn " \t\n\r"

def isNameStart (c : CodePoint) : Bool :=
  (0x41 ≤ c.val && c.val ≤ 0x5A) || (0x61 ≤ c.val && c.val ≤ 0x7A) || c.isIn "_:"

def isNameChar (c : CodePoint) : Bool := isNameStart c || c.isAsciiDigit || c.isIn "-."

def isName (t : Text) : Bool :=
  match t with
  | [] => false
  | c :: r => isNameStart c && r.all isNameChar

/-- Every line ends with a newline: a carriage return, with a newline behind it or without, counts as one. -/
def normalizeLines : Text → Text
  | [] => []
  | [c] => if c = .ofChar '\r' then [.ofChar '\n'] else [c]
  | c :: d :: r =>
    if c = .ofChar '\r' then
      if d = .ofChar '\n' then .ofChar '\n' :: normalizeLines r
      else .ofChar '\n' :: normalizeLines (d :: r)
    else c :: normalizeLines (d :: r)

/-! ## References -/

def entities : List (Text × CodePoint) :=
  [("amp", .ofChar '&'), ("lt", .ofChar '<'), ("gt", .ofChar '>'), ("quot", .ofChar '"'),
   ("apos", .ofChar '\'')]

/-- The character with a number in decimal. -/
def numbered? (digits : Text) : Option CodePoint :=
  match Text.readNatural digits with
  | none => none
  | some n => if n < 0x110000 && isChar (.ofNat n) then some (.ofNat n) else none

/-- The character that a reference stands for, by what is between the ampersand and the semicolon. -/
def reference? (name : Text) : Option CodePoint :=
  match name with
  | [] => none
  | c :: r =>
    if c = .ofChar '#' then numbered? r
    else (entities.find? fun e => e.1 = name).map (·.2)

/-- Text with its references replaced, and every other character `c` by `plain c`. Inside of a reference,
`open?` holds the part of it that was read. -/
def expand (plain : CodePoint → CodePoint) (open? : Option Text) : Text → Option Text
  | [] => if open?.isNone then some [] else none
  | c :: r =>
    match open? with
    | none =>
      if c = .ofChar '&' then expand plain (some []) r
      else if c = .ofChar '<' then none
      else (expand plain none r).map (plain c :: ·)
    | some name =>
      if c = .ofChar ';' then
        match reference? name with
        | none => none
        | some d => (expand plain none r).map (d :: ·)
      else expand plain (some (name ++ [c])) r

/-- The value of an attribute, from what is between the quotation marks. -/
def readValue (t : Text) : Option Text :=
  expand (fun c => if isSpace c then .ofChar ' ' else c) none t

/-- Whether the end mark of a CDATA section occurs, which character data may not hold. -/
def hasSectionEnd : Text → Bool
  | [] => false
  | c :: r => Text.startsWith (c :: r) "]]>" || hasSectionEnd r

def readData (t : Text) : Option Text := if hasSectionEnd t then none else expand id none t

/-! ## Tags -/

inductive Token where
  | data (t : Text)
  | openTag (name : Text) (attributes : List (Text × Text))
  | closeTag (name : Text)
  | emptyTag (name : Text) (attributes : List (Text × Text))
deriving DecidableEq, Repr

/-- The name at the start of a text. -/
def readName (t : Text) : Option (Text × Text) :=
  let name := t.takeWhile isNameChar
  if isName name then some (name, t.dropWhile isNameChar) else none

/-- The text after a character, white space in front of it left out. -/
def skip (c : CodePoint) (t : Text) : Option Text :=
  match t.dropWhile isSpace with
  | [] => none
  | d :: r => if d = c then some r else none

/-- The value in quotation marks at the start of a text. -/
def readQuoted (t : Text) : Option (Text × Text) :=
  match t.dropWhile isSpace with
  | [] => none
  | mark :: r =>
    if mark.isIn "\"'" then
      match r.dropWhile (· ≠ mark) with
      | [] => none
      | _ :: rest => (readValue (r.takeWhile (· ≠ mark))).map fun v => (v, rest)
    else none

/-- A name, an equals sign and a value. -/
def readAttribute (t : Text) : Option ((Text × Text) × Text) := do
  let (name, r) ← readName t
  let r ← skip (.ofChar '=') r
  let (value, r) ← readQuoted r
  return ((name, value), r)

/-- At most `n` attributes, each behind white space, up to the end mark of the tag. -/
def readAttributes : Nat → Text → Option (List (Text × Text) × Text)
  | 0, _ => none
  | n + 1, t =>
    match t.dropWhile isSpace with
    | [] => none
    | c :: r =>
      if c.isIn ">/?" then some ([], c :: r)
      else if (c :: r).length = t.length then none
      else do
        let (a, r) ← readAttribute (c :: r)
        let (as, r) ← readAttributes n r
        return (a :: as, r)

/-- The attributes up to the end mark of the tag; no two have the same name. -/
def readDistinct (t : Text) : Option (List (Text × Text) × Text) :=
  (readAttributes t.length t).filter fun p => decide (p.1.map (·.1)).Nodup

/-- A tag after its opening bracket. -/
def readTag (t : Text) : Option (Token × Text) :=
  match t with
  | [] => none
  | c :: r =>
    if c = .ofChar '/' then do
      let (name, r) ← readName r
      return (.closeTag name, ← skip (.ofChar '>') r)
    else do
      let (name, r) ← readName (c :: r)
      let (attributes, r) ← readDistinct r
      match r with
      | [] => none
      | c :: r =>
        if c = .ofChar '>' then some (.openTag name attributes, r)
        else if c = .ofChar '/' && r.head? = some (.ofChar '>') then
          some (.emptyTag name attributes, r.drop 1)
        else none

/-- At most `n` tags and runs of character data, up to the end of the text. -/
def readTokens : Nat → Text → Option (List Token)
  | _, [] => some []
  | 0, _ :: _ => none
  | n + 1, c :: r =>
    if c = .ofChar '<' then do
      let (tag, rest) ← readTag r
      return tag :: (← readTokens n rest)
    else do
      let t ← readData ((c :: r).takeWhile (· ≠ .ofChar '<'))
      return .data t :: (← readTokens n ((c :: r).dropWhile (· ≠ .ofChar '<')))

/-! ## Elements -/

inductive Node where
  | data (t : Text)
  | element (name : Text) (attributes : List (Text × Text)) (children : List Node)

/-- An element that was opened, with its children so far. -/
structure Frame where
  name : Text
  attributes : List (Text × Text)
  children : List Node

def Frame.add (f : Frame) (n : Node) : Frame := { f with children := f.children ++ [n] }

def Frame.element (f : Frame) : Node := .element f.name f.attributes f.children

/-- The open elements after a token, innermost first; the last one stands for the document. -/
def step : Token → List Frame → Option (List Frame)
  | .data t, f :: s => some (f.add (.data t) :: s)
  | .openTag name attributes, s => some (⟨name, attributes, []⟩ :: s)
  | .emptyTag name attributes, f :: s => some (f.add (.element name attributes []) :: s)
  | .closeTag name, f :: g :: s => if f.name = name then some (g.add f.element :: s) else none
  | _, _ => none

def run : List Token → List Frame → Option (List Frame)
  | [], s => some s
  | t :: ts, s => (step t s).bind (run ts)

/-- The elements among nodes, if all else is white space. -/
def elements? : List Node → Option (List Node)
  | [] => some []
  | .data t :: ns => if t.all isSpace then elements? ns else none
  | n :: ns => (elements? ns).map (n :: ·)

/-- The nodes of a document, if all its elements are closed. -/
def nodes (tokens : List Token) : Option (List Node) :=
  match run tokens [⟨[], [], []⟩] with
  | some [document] => some document.children
  | _ => none

/-! ## Documents -/

/-- What a declaration may say: the version, and behind it the encoding and whether the document stands
alone. -/
def isDeclaration (attributes : List (Text × Text)) : Bool :=
  match attributes with
  | (name, value) :: rest =>
    name = Text.ofString "version" && value = Text.ofString "1.0" &&
      (rest.map (·.1)).isSublist [Text.ofString "encoding", Text.ofString "standalone"]
  | [] => false

/-- What follows the declaration, if there is one. -/
def readProlog (t : Text) : Option Text :=
  if t.startsWith "<?xml" then do
    let (attributes, r) ← readDistinct (t.drop 5)
    if isDeclaration attributes && r.startsWith "?>" then return r.drop 2 else none
  else some t

/-- The root element of a document. -/
def read (t : Text) : Option Node := do
  let t := normalizeLines t
  if t.all isChar then
    let body ← readProlog t
    let tokens ← readTokens body.length body
    match ← (nodes tokens).bind elements? with
    | [root] => return root
    | _ => none
  else none

end Findings.Xml
