import Findings.Text.Basic

/-!
# Severity categories

A finding belongs to one of six categories. Each has a label, under which the analysis engine reports
it; labels are matched exactly, and any other label is filed under `error`. Callers name a category by
its code; one code more than there are categories is the sentinel that marks their number.
-/

namespace Findings

/-- The severity categories, in display order. -/
inductive Category where
  | error
  | warning
  | style
  | performance
  | portability
  | information
deriving DecidableEq, Repr

/-- What a caller may name where a category is expected. -/
inductive CategoryCode where
  | real (c : Category)
  | sentinel
deriving DecidableEq, Repr

namespace Category

def all : List Category := [error, warning, style, performance, portability, information]

def label : Category → Text
  | error => "error"
  | warning => "warning"
  | style => "style"
  | performance => "performance"
  | portability => "portability"
  | information => "information"

/-- The category reported under exactly this label. -/
def ofLabel? (t : Text) : Option Category := all.find? fun c => c.label = t

/-- The category an unknown label is filed under. -/
def fallback : Category := error

def classify (t : Text) : Category := (ofLabel? t).getD fallback

def isKnown (t : Text) : Bool := (ofLabel? t).isSome

def name : Category → Text
  | error => "ERROR"
  | warning => "WARNING"
  | style => "STYLE"
  | performance => "PERFORMANCE"
  | portability => "PORTABILITY"
  | information => "INFORMATION"

def number : Category → Nat
  | error => 0
  | warning => 1
  | style => 2
  | performance => 3
  | portability => 4
  | information => 5

end Category

namespace CategoryCode

def all : List CategoryCode := Category.all.map real ++ [sentinel]

def name : CategoryCode → Text
  | real c => c.name
  | sentinel => "NONE"

def number : CategoryCode → Nat
  | real c => c.number
  | sentinel => Category.all.length

/-- How a code is shown inside a message: `Category.STYLE`. -/
def display (c : CategoryCode) : Text := "Category." ++ c.name

/-- How a code is written as a value: `<Category.STYLE: 2>`. -/
def written (c : CategoryCode) : Text := "<" ++ c.display ++ ": " ++ Text.ofNat c.number ++ ">"

end CategoryCode
end Findings
