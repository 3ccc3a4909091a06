import Findings.Path.Canonical
import Findings.Text.Octets
import Findings.Text.Quoted

/-!
# Files

The converter runs in a folder and names files from there. The folder stands two levels below the root of
all folders. Of the world outside the folder only two devices are there: one that takes anything, and one
that is always full. The disk that the folder is on may have a fault, so that it takes no more than the first
octets of what is written to a file.
-/

namespace Findings.Convert

/-- The names on the way from the folder to a file or a folder in it. -/
abbrev Route := List Text

/-- Why what was opened does not take all that is written to it. -/
structure DiskFault where
  reason : Text
  /-- The octets that it takes before it fails. -/
  kept : Nat := 0
  /-- Whether it fails only when it is closed. -/
  onClosing : Bool := false
deriving DecidableEq, Repr

structure Folder where
  subfolders : List Route := []
  files : List (Route × List UInt8) := []
  /-- The fault of the disk that the files are on, if it has one. -/
  disk : Option DiskFault := none
deriving DecidableEq, Repr

/-- Why a name cannot be opened, or what was opened not be written. -/
inductive FileFault where
  | notEncodable
  | nullCharacter
  | missing
  | notFolder
  | isFolder
  | noSpace
  | nameTooLong
deriving DecidableEq, Repr

namespace FileFault

/-- The number and the words of a fault of the file system; the first two faults are none. -/
def description? : FileFault → Option (Nat × Text)
  | notEncodable | nullCharacter => none
  | missing => some (2, "No such file or directory")
  | notFolder => some (20, "Not a directory")
  | isFolder => some (21, "Is a directory")
  | noSpace => some (28, "No space left on device")
  | nameTooLong => some (36, "File name too long")

/-- A fault as it is reported, with the name that could not be opened. -/
def message (e : FileFault) (name : Option Text) : Text :=
  match e.description? with
  | none => []
  | some (number, words) =>
    let opened : Text := match name with
      | none => []
      | some name => ": " ++ name.quoted
    "[Errno " ++ Text.ofNat number ++ "] " ++ words ++ opened

end FileFault

/-! ## Looking up names -/

/-- A file that stores nothing. -/
inductive Device where
  /-- Takes anything. -/
  | null
  /-- Is always full. -/
  | full
deriving DecidableEq, Repr

inductive Node where
  | folder (route : Route)
  | file (route : Route)
  /-- A name in a folder that nothing has. -/
  | free (route : Route)
  /-- The folder that the folder is in. -/
  | outside
  | root
  /-- The folder of the devices. -/
  | devices
  | device (d : Device)
deriving DecidableEq, Repr

namespace Folder

def nodeAt (f : Folder) (route : Route) : Node :=
  if route = [] || f.subfolders.contains route then .folder route
  else if f.files.any (·.1 = route) then .file route
  else .free route

/-- The octets a part of a name may have. -/
def partLimit : Nat := 255

/-- The octets a name may have. -/
def nameLimit : Nat := 4095

/-- What a folder holds under a name. -/
def child (f : Folder) (node : Node) (name : Text) : Except FileFault Node :=
  match node with
  | .file _ | .device _ => .error .notFolder
  | .free _ | .outside => .error .missing
  | .folder route => .ok (f.nodeAt (route ++ [name]))
  | .root => if name = Text.ofString "dev" then .ok .devices else .error .missing
  | .devices =>
    if name = Text.ofString "null" then .ok (.device .null)
    else if name = Text.ofString "full" then .ok (.device .full)
    else .error .missing

/-- The folder that a folder is in; the root is in itself. -/
def parent : Node → Except FileFault Node
  | .file _ | .device _ => .error .notFolder
  | .free _ => .error .missing
  | .folder [] => .ok .outside
  | .folder route => .ok (.folder route.dropLast)
  | .outside | .root | .devices => .ok .root

/-- The node itself, if it is a folder. -/
def inside : Node → Except FileFault Node
  | .file _ | .device _ => .error .notFolder
  | .free _ => .error .missing
  | node => .ok node

/-- The octets of a part of a name. -/
def sizeOf (part : Text) : Nat := ((Octets.ofText? part).getD []).length

/-- The step from a node to a part of a name. -/
def enter (f : Folder) (node : Node) (part : Text) : Except FileFault Node :=
  match inside node with
  | .error e => .error e
  | .ok node =>
    if part = [] || part = Text.ofString "." then .ok node
    else if part = Text.ofString ".." then parent node
    else if partLimit < sizeOf part then .error .nameTooLong
    else f.child node part

def follow (f : Folder) (node : Node) : List Text → Except FileFault Node
  | [] => .ok node
  | part :: parts =>
    match f.enter node part with
    | .error e => .error e
    | .ok node => f.follow node parts

/-- The node that a name starts from, and its parts. -/
def start (name : Text) : Except FileFault (Node × List Text) :=
  match Octets.ofText? name with
  | none => .error .notEncodable
  | some octets =>
    if octets.contains 0 then .error .nullCharacter
    else if octets = [] then .error .missing
    else if nameLimit < octets.length then .error .nameTooLong
    else .ok (if name.startsWithChar '/' then .root else .folder [],
      (Octets.toText octets).split Path.slash)

/-- The content of the file of a name; a device gives nothing. -/
def read (f : Folder) (name : Text) : Except FileFault (List UInt8) :=
  match start name with
  | .error e => .error e
  | .ok (node, parts) => match f.follow node parts with
    | .error e => .error e
    | .ok (.file route) => .ok (((f.files.find? fun e => e.1 = route).map (·.2)).getD [])
    | .ok (.device _) => .ok []
    | .ok (.free _) => .error .missing
    | .ok _ => .error .isFolder

/-! ## Writing -/

/-- What was opened for writing. -/
inductive Destination where
  | file (route : Route)
  | device (d : Device)
deriving DecidableEq, Repr

/-- The fault of what was opened. -/
def faultOf (f : Folder) : Destination → Option DiskFault
  | .file _ => f.disk
  | .device .null => none
  | .device .full => some { reason := FileFault.noSpace.message none }

/-- Sets the content of a file, a new one if there is none. -/
def put (f : Folder) (route : Route) (content : List UInt8) : Folder :=
  { f with files :=
      if f.files.any (·.1 = route) then
        f.files.map fun e => if e.1 = route then (route, content) else e
      else f.files ++ [(route, content)] }

/-- What opening a node for writing leaves: a file is empty afterwards. -/
def opened (f : Folder) : Node → Except FileFault (Folder × Destination)
  | .file route | .free route => .ok (f.put route [], .file route)
  | .device d => .ok (f, .device d)
  | _ => .error .isFolder

/-- Opens a name for writing. A name with slashes at its end can only be a folder's, whatever is there. -/
def create (f : Folder) (name : Text) : Except FileFault (Folder × Destination) :=
  match start name with
  | .error e => .error e
  | .ok (node, parts) =>
    let named := (parts.reverse.dropWhile (· = [])).reverse
    match f.follow node named.dropLast with
    | .error e => .error e
    | .ok node => match inside node with
      | .error e => .error e
      | .ok node =>
        if named.length < parts.length then .error .isFolder
        else match f.enter node (named.getLast?.getD []) with
          | .error e => .error e
          | .ok node => f.opened node

end Folder
end Findings.Convert
