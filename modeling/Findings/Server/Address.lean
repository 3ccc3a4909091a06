import Findings.Json.Reader
import Findings.Text.Utf8

/-!
# Addresses

The address of a request is a path and, after a question mark, a query; what follows a number sign is not
sent. A host in front of the path does not matter. The client resolves the segments `.` and `..` of the path.
A percent sign and two hexadecimal digits stand for an octet; they are decoded by the client and once more
by the server. Octets that are no UTF-8 are read as U+FFFD.
-/

namespace Findings.Server

/-- The octet that two hexadecimal digits spell. -/
def hexPair? (a b : UInt8) : Option UInt8 :=
  match Json.hexValue? (.ofNat a.toNat), Json.hexValue? (.ofNat b.toNat) with
  | some a, some b => some (.ofNat (a * 16 + b))
  | _, _ => none

def percentDecode : List UInt8 → List UInt8
  | 0x25 :: a :: b :: r =>
    match hexPair? a b with
    | some x => x :: percentDecode r
    | none => 0x25 :: percentDecode (a :: b :: r)
  | x :: r => x :: percentDecode r
  | [] => []

def unquote (t : Text) : Text := Utf8.decodeLossy (percentDecode (Utf8.encode t))

/-- A name or a value of a query, in which a plus sign stands for a blank. -/
def queryPart (t : Text) : Text :=
  unquote (t.map fun c => if c = .ofChar '+' then .ofChar ' ' else c)

def queryPair (t : Text) : Text × Text :=
  let (name, value) := t.span (· ≠ .ofChar '=')
  (queryPart name, queryPart (value.drop 1))

/-- The segments so far, last first, with one more segment; the empty one at the start stays. -/
def pushSegment (stack : List Text) (segment : Text) : List Text :=
  if segment = Text.ofString "." then stack
  else if segment = Text.ofString ".." then
    match stack with
    | [] | [[]] => stack
    | _ :: below => below
  else segment :: stack

/-- `path` without the segments `.` and `..`. -/
def resolveSegments (path : Text) : Text :=
  Text.join "/" ((path.split (.ofChar '/')).foldl pushSegment []).reverse

/-- The path that the server sees for a path that a client asks for. -/
def sentPath (path : Text) : Text :=
  match unquote (resolveSegments path) with
  | [] => "/"
  | path => path

/-- `t` without the name of a host, which stands behind two slashes. -/
def dropHost (t : Text) : Text :=
  if t.startsWith "//" then (t.drop 2).dropWhile fun c => !c.isIn "/?#" else t

structure Address where
  path : Text
  query : List (Text × Text) := []
deriving DecidableEq, Repr

def Address.ofText (t : Text) : Address :=
  let (path, query) := ((dropHost t).takeWhile (· ≠ .ofChar '#')).span (· ≠ .ofChar '?')
  { path := unquote (sentPath (.ofChar '/' :: path.dropWhile (· = .ofChar '/')))
    query := ((Text.split (.ofChar '&') (query.drop 1)).filter (· ≠ [])).map queryPair }

/-- The address with another path, to which the server sends the client. In what it sends, percent signs of
the path are spelled out, so that the path is decoded only once more. -/
def Address.redirected (a : Address) (path : Text) : Address := { a with path := sentPath path }

/-- The value of a name in a query; the last one counts. -/
def Address.value? (a : Address) (name : Text) : Option Text :=
  (a.query.reverse.find? fun e => e.1 = name).map (·.2)

end Findings.Server
