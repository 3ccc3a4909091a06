import Findings.Text.Basic

/-!
# Routes

What the server answers at, and by which methods. A line break at the end of a fixed path does not matter.
A path with slashes at its end leads to no route, but if it does without them, the client is sent there.
-/

namespace Findings.Server

inductive Method where
  | get
  | post
  | put
  | delete
  | other
deriving DecidableEq, Repr

def Method.ofText (t : Text) : Method :=
  if t = Text.ofString "GET" then .get
  else if t = Text.ofString "POST" then .post
  else if t = Text.ofString "PUT" then .put
  else if t = Text.ofString "DELETE" then .delete
  else .other

inductive Route where
  | health
  | results
  | visibility
  | category (label : Text)
  | exported
  | applications
  | opening
  | settings
  | checkDirectory
deriving DecidableEq, Repr

namespace Route

/-- The paths without a parameter. -/
def paths : List (Text × Route) :=
  [("/health", health), ("/api/results", results), ("/api/results/visibility", visibility),
   ("/api/results/export", exported), ("/api/results/applications", applications),
   ("/api/results/open", opening), ("/api/settings", settings),
   ("/api/settings/check-directory", checkDirectory)]

def categoryStart : Text := "/api/results/visibility/"

/-- The label in the path of a category; it has no slash. -/
def label? (path : Text) : Option Text :=
  match categoryStart.isPrefixOf? path with
  | none | some [] => none
  | some label => if label.contains (.ofChar '/') then none else some label

/-- `path` without the line break at its end, if there is one. -/
def withoutBreak (path : Text) : Text := if path.endsWithChar '\n' then path.dropLast else path

def ofPath? (path : Text) : Option Route :=
  match paths.find? fun e => e.1 = withoutBreak path with
  | some (_, r) => some r
  | none => (label? path).map category

/-- `path` without the slashes at its end. -/
def withoutSlashes (path : Text) : Text := (path.reverse.dropWhile (· = .ofChar '/')).reverse

/-- The path to which a client is sent from one that leads to no route. -/
def redirection? (path : Text) : Option Text :=
  if path.endsWithChar '/' && (ofPath? (withoutSlashes path)).isSome then some (withoutSlashes path)
  else none

end Route
end Findings.Server
