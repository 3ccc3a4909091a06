import Findings.Convert.Run

/-!
# Messages of the converter

What a run that breaks off tells its user, and how the converter is called.
-/

namespace Findings.Convert

def InputFault.message : InputFault → Text
  | notUtf8 => "The findings file is not in UTF-8"
  | notJson .malformed => "The findings file is not JSON"
  | notJson .tooManyDigits => "The findings file holds a number that is too long"
  | notJson .tooDeep => "The findings file is nested too deep"
  | itemNotObject => "An item of the findings file is not an object"
  | locationsNotList => "The locations of an item are not a list"
  | locationNotObject => "A location of an item is not an object"

/-- What is told about a file that cannot be opened. -/
def FileFault.reason (e : FileFault) (name : Text) : Text :=
  match e with
  | notEncodable => "A file name cannot be encoded: " ++ name.quoted
  | nullCharacter => "A file name holds a null character: " ++ name.quoted
  | e => e.message (some name)

def Failure.message (name : Text) : Failure → Text
  | file e => e.reason name
  | input e => e.message
  | error e => e.message

/-- One line for each option, with its value if it takes one. -/
def help : List Text :=
  ("usage: export_report.py findings [options]" : Text) ::
    Switch.spellings.map fun (spelling, s) =>
      let choices : Text :=
        if !s.takesValue then []
        else if s.choices.isEmpty then " VALUE"
        else " " ++ Text.join "|" s.choices
      "  " ++ spelling ++ choices

end Findings.Convert
