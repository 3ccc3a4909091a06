import Findings.Finding

/-!
# The store

The store owns the findings, grouped by file. Files keep the order in which they were first seen, the
findings of a file the order in which they were added. An index of all findings by category is kept
beside the groups. Nothing is removed but by clearing, which also starts a new generation, so that no
reference given out before resolves any more.
-/

namespace Findings

/-- A file and its findings. A file is hidden when none of its findings is shown. -/
structure FileGroup where
  path : Text
  findings : List Finding := []
  hidden : Bool := true
deriving Repr

/-- Where a finding is kept. -/
structure Slot where
  path : Text
  position : Nat
deriving DecidableEq, Repr

structure Store where
  files : List FileGroup := []
  /-- The slots of all findings with their categories, in the order of adding. -/
  index : List (Category × Slot) := []
  generation : Nat := 0
deriving Repr

/-- A finding as it is handed to the store. Reading its backtrace may break off. No label means the label
of the category. -/
structure Submission where
  file : Text
  category : CategoryCode
  message : Value
  backtrace : Except Error (List Location) := .ok []
  id : Value := .text []
  label : Value := .null
  hidden : Bool := false

def Submission.finding (n : Submission) (c : Category) (backtrace : List Location) : Finding where
  file := Path.canonical n.file
  category := c
  message := n.message
  backtrace := backtrace
  id := n.id
  label := match n.label with
    | .null => .text c.label
    | given => given
  hidden := n.hidden

namespace FileGroup

/-- A finding more at the end; a shown one makes the file shown. -/
def append (g : FileGroup) (f : Finding) : FileGroup :=
  { g with findings := g.findings ++ [f], hidden := g.hidden && f.hidden }

/-- The group with its flag computed from its findings. -/
def refresh (g : FileGroup) : FileGroup := { g with hidden := g.findings.all (·.hidden) }

def modifyAt (g : FileGroup) (position : Nat) (change : Finding → Finding) : FileGroup :=
  { g with findings := g.findings.modify position change }

/-- The findings of the file, all or those not hidden, each with its file. -/
def members (g : FileGroup) (includeHidden : Bool) : List (FileGroup × Finding) :=
  (g.findings.filter fun f => includeHidden || !f.hidden).map (g, ·)

end FileGroup

namespace Store

/-! ## Reading -/

def group? (s : Store) (path : Text) : Option FileGroup := s.files.find? fun g => g.path = path

def findFile (s : Store) (path : Text) : Option FileGroup := s.group? (Path.canonical path)

/-- The number of findings. -/
def size (s : Store) : Nat := (s.files.flatMap (·.findings)).length

def fileCount (s : Store) : Nat := s.files.length

/-- The file a reference of the current generation names. -/
def fileOf (s : Store) (r : Ref) : Option FileGroup :=
  if r.generation = s.generation then s.group? r.path else none

/-- The finding a reference names: of the current generation, a known file, a position in it. -/
def resolve (s : Store) (r : Ref) : Option Finding :=
  match s.fileOf r with
  | none => none
  | some g => if 0 ≤ r.index then g.findings[r.index.toNat]? else none

/-- The finding in a slot, with its file. -/
def at? (s : Store) (slot : Slot) : Option (FileGroup × Finding) :=
  match s.group? slot.path with
  | none => none
  | some g => g.findings[slot.position]?.map (g, ·)

def slotsOf (s : Store) (c : Category) : List Slot :=
  (s.index.filter fun e => e.1 = c).map (·.2)

/-- The findings of a category, in the order of adding over all files; of the sentinel none. -/
def findingsIn (s : Store) : CategoryCode → List (FileGroup × Finding)
  | .real c => (s.slotsOf c).filterMap s.at?
  | .sentinel => []

/-- All files, or those not hidden. -/
def groups (s : Store) (includeHidden : Bool) : List FileGroup :=
  s.files.filter fun g => includeHidden || !g.hidden

/-- The traversal: file by file, and in each file finding by finding. -/
def traverse (s : Store) (includeHidden : Bool) : List (FileGroup × Finding) :=
  (s.groups includeHidden).flatMap (·.members includeHidden)

/-- Calls `visit` on each finding of the traversal, with its file. -/
def forEach {m : Type → Type} [Monad m] (s : Store) (includeHidden : Bool)
    (visit : FileGroup → Finding → m Unit) : m Unit :=
  (s.traverse includeHidden).forM fun p => visit p.1 p.2

/-! ## Writing -/

/-- The groups with a finding more in the group of its file, which is new at the end if need be. -/
def place (f : Finding) : List FileGroup → List FileGroup
  | [] => [FileGroup.append { path := f.file } f]
  | g :: gs => if g.path = f.file then g.append f :: gs else g :: place f gs

/-- The store with a group for a path, which is new at the end and without findings if need be. -/
def reserve (s : Store) (path : Text) : Store :=
  if path ∈ s.files.map (·.path) then s else { s with files := s.files ++ [{ path }] }

/-- Adds a finding; the sentinel is refused before anything changes. The file has its group before the
backtrace is read, and keeps it if that breaks off. -/
def add (s : Store) (n : Submission) : Store × Except Error Ref :=
  match n.category with
  | .sentinel => (s, .error (.invalidCategory (.category .sentinel)))
  | .real c => match n.backtrace with
    | .error e => (s.reserve (Path.canonical n.file), .error e)
    | .ok backtrace =>
      let f := n.finding c backtrace
      let position := ((s.group? f.file).map (·.findings.length)).getD 0
      ({ s with files := place f s.files, index := s.index ++ [(c, ⟨f.file, position⟩)] },
        .ok ⟨f.file, position, s.generation⟩)

/-- The empty store of the next generation. -/
def clear (s : Store) : Store := { generation := s.generation + 1 }

/-- Changes every group of a path. -/
def modifyGroup (s : Store) (path : Text) (change : FileGroup → FileGroup) : Store :=
  { s with files := s.files.map fun g => if g.path = path then change g else g }

end Store
end Findings
