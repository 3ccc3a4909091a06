import Findings.Report.Format
import Findings.Value

/-!
# Log events

What the library reports about its own work, and the record that is logged for each event.
-/

namespace Findings.Log

/-- The severity of a record; any integer is one. -/
abbrev Level := Int

def info : Level := 20
def warning : Level := 30
def error : Level := 40

/-- What a record may carry besides its message. -/
structure Fields where
  file : Option Value := none
  category : Option Value := none
  label : Option Value := none
  format : Option Value := none
deriving Repr

structure Record where
  level : Level
  logger : Text
  message : Text
  fields : Fields := {}
  /-- The exception the record was logged with, as text. -/
  exception : Option Text := none
deriving Repr

inductive Event where
  /-- A label that no category has, and the category its finding is filed under. -/
  | unknownSeverity (label file : Value) (filedUnder : Category)
  | cleared
  | categoryChanged (c : Category) (shown : Bool) (files : Nat)
  | settingsUpdated (showFullPath saveFullPath saveAllErrors : Bool)
  | opened (application file : Text)
  | reportSaved (format : Format) (length : Nat)
  | reportFailed (format : Format) (reason : Text)
deriving Repr

namespace Event

def treeLogger : Text := "results_tree.services.tree_service"
def visibilityLogger : Text := "results_tree.services.visibility_service"
def exportLogger : Text := "results_tree.services.export_service"

def message : Event → Text
  | unknownSeverity label _ c => "Unknown severity " ++ label.written ++ ", filing under " ++ c.label
  | cleared => "Results cleared"
  | categoryChanged c shown files =>
    "Category " ++ c.label ++ (if shown then " shown (" else " hidden (") ++ Text.ofNat files ++
      " files affected)"
  | settingsUpdated showFullPath saveFullPath saveAllErrors =>
    "Settings updated: show_full_path=" ++ Value.boolWord showFullPath ++
      " save_full_path=" ++ Value.boolWord saveFullPath ++
      " save_all_errors=" ++ Value.boolWord saveAllErrors
  | opened application _ => "Opened finding with " ++ application
  | reportSaved format length =>
    "Saved " ++ format.name ++ " report (" ++ Text.ofNat length ++ " chars)"
  | reportFailed format reason => "Writing " ++ format.name ++ " report failed: " ++ reason

def record (e : Event) : Record :=
  match e with
  | unknownSeverity label file _ =>
    { level := warning, logger := treeLogger, message := e.message,
      fields := { file := some file, label := some label } }
  | cleared => { level := info, logger := treeLogger, message := e.message }
  | categoryChanged c _ _ =>
    { level := info, logger := visibilityLogger, message := e.message,
      fields := { category := some (.text c.label) } }
  | settingsUpdated .. => { level := info, logger := treeLogger, message := e.message }
  | opened _ file =>
    { level := info, logger := treeLogger, message := e.message, fields := { file := some (.text file) } }
  | reportSaved format _ =>
    { level := info, logger := exportLogger, message := e.message,
      fields := { format := some (.text format.name) } }
  | reportFailed format _ =>
    { level := error, logger := exportLogger, message := e.message,
      fields := { format := some (.text format.name) } }

end Event
end Findings.Log
