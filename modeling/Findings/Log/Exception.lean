import Findings.Error

/-!
# Exceptions in records

A record may carry the exception it was logged for. It is written as the name of its class and its text.
-/

namespace Findings.Log

/-- An exception: the name of its class and the text it was raised with. -/
structure Exception where
  name : Text
  text : Text
deriving DecidableEq, Repr

namespace Exception

/-- The errors of the library itself, whose names are written in full. -/
def ownNames : List Text :=
  ["ResultsTreeError", "InvalidCategory", "IOFailure", "UnknownApplication"]

/-- Other names of the class of system errors. -/
def systemErrorNames : List Text := ["EnvironmentError", "IOError"]

/-- The errors of a text that cannot be parsed. -/
def grammarErrorNames : List Text := ["SyntaxError", "IndentationError", "TabError"]

def fullName (e : Exception) : Text :=
  if ownNames.contains e.name then "results_tree.core.errors." ++ e.name
  else if systemErrorNames.contains e.name then "OSError"
  else e.name

/-- The reason that is written: a missing key is quoted, an invalid category has a message of its own, and
an error of grammar says so if it has no text. -/
def reason (e : Exception) : Text :=
  if e.name = Text.ofString "KeyError" then e.text.quoted
  else if e.name = Text.ofString "InvalidCategory" then (Error.invalidCategory (.text e.text)).message
  else if e.text = [] && grammarErrorNames.contains e.name then "<no detail available>"
  else e.text

/-- The class and, unless it is empty, the text. -/
def written (e : Exception) : Text :=
  match e.reason with
  | [] => e.fullName
  | reason => e.fullName ++ ": " ++ reason

end Exception
end Findings.Log
