import Findings.Environment
import Findings.Path.Strip
import Findings.Tree.Basic
import Findings.Validation

/-!
# Settings

Settings come from arguments, and where there is none from environment variables. In a variable, a truth
value is one of four words in any case with blanks around it; anything else is false.
-/

namespace Findings

structure Settings where
  checkDirectory : Text := []
  showFullPath : Bool := false
  saveFullPath : Bool := false
  saveAllErrors : Bool := true
  /-- Labels of the categories that are hidden at the start, apart by commas. -/
  hiddenLabels : Text := []
  exportFormat : Text := "xml"
deriving DecidableEq, Repr

namespace Settings

def yesWords : List Text := ["1", "true", "yes", "on"]

/-- The truth value of a variable. Small forms of letters outside ASCII spell none of the four words. -/
def truth (env : Environment) (name : Text) (unset : Bool) : Bool :=
  match env.get? name with
  | none => unset
  | some t => yesWords.contains t.trim.lower

/-- The settings that the environment alone gives. -/
def ofEnvironment (env : Environment) : Settings where
  checkDirectory := (env.get? "CHECK_DIR").getD []
  showFullPath := truth env "SHOW_FULL_PATH" false
  saveFullPath := truth env "SAVE_FULL_PATH" false
  saveAllErrors := truth env "SAVE_ALL_ERRORS" true
  hiddenLabels := (env.get? "HIDDEN_CATEGORIES").getD []
  exportFormat := (env.get? "DEFAULT_EXPORT_FORMAT").getD "xml"

open Validation in
/-- The settings given by arguments; the environment gives those that are missing. -/
def ofArguments (env : Environment) (arguments : List (Text × Value)) : Checked Settings :=
  let d := ofEnvironment env
  let textField (key : Text) (unset : Text) := field arguments [] key (checkAt · asText) (some unset)
  let truthField (key : Text) (unset : Bool) := field arguments [] key (checkAt · asBool) (some unset)
  Checked.apply ((textField "CHECK_DIR" d.checkDirectory).map Settings.mk)
      (truthField "SHOW_FULL_PATH" d.showFullPath)
    |>.apply (truthField "SAVE_FULL_PATH" d.saveFullPath)
    |>.apply (truthField "SAVE_ALL_ERRORS" d.saveAllErrors)
    |>.apply (textField "HIDDEN_CATEGORIES" d.hiddenLabels)
    |>.apply (textField "DEFAULT_EXPORT_FORMAT" d.exportFormat)

def policy (s : Settings) : PathPolicy where
  checkDirectory := s.checkDirectory
  showFullPath := s.showFullPath
  saveFullPath := s.saveFullPath
  saveAllErrors := s.saveAllErrors

/-- The categories whose labels stand between the commas; any other piece counts for nothing. -/
def hiddenCategories (s : Settings) : List Category :=
  (s.hiddenLabels.split (.ofChar ',')).filterMap fun piece => Category.ofLabel? piece.trim

/-- The mask with exactly the hidden categories hidden. -/
def mask (s : Settings) : Mask := s.hiddenCategories.foldl (fun m c => m.set c false) {}

/-- The tree that a program starts with. -/
def tree (s : Settings) (applications : Registry) : Tree :=
  { view := { mask := s.mask }, policy := s.policy, applications }

end Settings
end Findings
