import Findings.Path.Strip
import Findings.Store.Basic

/-!
# Entries of a report

What a report says about one finding. Identifier and message are values as they were reported; the text
and the XML format need them to be texts. No format writes an integer with too many digits.
-/

namespace Findings.Report

structure Entry (α : Type) where
  file : Text
  severity : Text
  id : α
  msg : α
  locations : List Location
deriving Repr

/-- The entry of a finding, with the paths that the policy asks for. -/
def Entry.ofFinding (policy : PathPolicy) (f : Finding) : Entry Value where
  file := Path.toPersisted policy f.file
  severity := f.category.label
  id := f.id
  msg := f.message
  locations := f.backtrace.map fun l => { l with file := Path.toPersisted policy l.file }

/-- All lines of the entry can be written out. -/
def Entry.Legible {α : Type} (e : Entry α) : Prop := ∀ l ∈ e.locations, Findings.Legible l.line

instance {α : Type} (e : Entry α) : Decidable e.Legible :=
  inferInstanceAs (Decidable (∀ l ∈ e.locations, Findings.Legible l.line))

/-- The entry for a format that needs texts for identifier and message. -/
def Entry.texts (format : Format) (e : Entry Value) : Except Error (Entry Text) :=
  match e.id, e.msg with
  | .text id, .text msg =>
    if e.Legible then .ok ⟨e.file, e.severity, id, msg, e.locations⟩ else .error .integerTooLong
  | _, _ => .error (.fieldNotText format)

end Findings.Report

namespace Findings.Store

/-- The findings a report covers: all, or those shown. -/
def select (s : Store) (policy : PathPolicy) : List Finding :=
  (s.traverse policy.saveAllErrors).map (·.2)

def entries (s : Store) (policy : PathPolicy) : List (Report.Entry Value) :=
  (s.select policy).map (Report.Entry.ofFinding policy)

end Findings.Store
