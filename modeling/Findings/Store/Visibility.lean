import Findings.Store.Basic

/-!
# Visibility

A mask says of each category whether its findings are shown. The flags in the store are brought in line
with the mask at every change: through the index when one category changes, over all groups when several
do, and for one reference after its finding was added. A finding is hidden when its category is masked
out; a file is hidden when none of its findings is shown.
-/

namespace Findings

structure Mask where
  error : Bool := true
  warning : Bool := true
  style : Bool := true
  performance : Bool := true
  portability : Bool := true
  information : Bool := true
deriving DecidableEq, Repr

namespace Mask

def shows (m : Mask) : Category → Bool
  | .error => m.error
  | .warning => m.warning
  | .style => m.style
  | .performance => m.performance
  | .portability => m.portability
  | .information => m.information

def set (m : Mask) (c : Category) (shown : Bool) : Mask :=
  match c with
  | .error => { m with error := shown }
  | .warning => { m with warning := shown }
  | .style => { m with style := shown }
  | .performance => { m with performance := shown }
  | .portability => { m with portability := shown }
  | .information => { m with information := shown }

def entries (m : Mask) : List (Category × Bool) := Category.all.map fun c => (c, m.shows c)

/-- The entries set one after another, up to the first that names no category. -/
def setAll (m : Mask) : List (CategoryCode × Bool) → Mask × Except Error Unit
  | [] => (m, .ok ())
  | (.real c, shown) :: rest => setAll (m.set c shown) rest
  | (.sentinel, _) :: _ => (m, .error (.invalidCategory (.category .sentinel)))

/-- The mask with these entries, all other categories shown. -/
def ofEntries (entries : List (CategoryCode × Bool)) : Except Error Mask :=
  match setAll {} entries with
  | (m, .ok ()) => .ok m
  | (_, .error e) => .error e

/-- Whether a category is shown; the sentinel is refused. -/
def shows? (m : Mask) : CategoryCode → Except Error Bool
  | .real c => .ok (m.shows c)
  | .sentinel => .error (.invalidCategory (.category .sentinel))

end Mask

namespace Store

def setHidden (hidden : Bool) (f : Finding) : Finding := { f with hidden }

/-- The finding in a slot shown or hidden. -/
def setHiddenAt (s : Store) (hidden : Bool) (slot : Slot) : Store :=
  s.modifyGroup slot.path fun g => g.modifyAt slot.position (setHidden hidden)

/-- The files that hold findings of a category. -/
def pathsOf (s : Store) (c : Category) : List Text := ((s.slotsOf c).map (·.path)).eraseDups

/-- Shows or hides the findings of a category, reached through the index, and refreshes their files. -/
def showCategory (s : Store) (c : Category) (shown : Bool) : Store :=
  let flagged := (s.slotsOf c).foldl (setHiddenAt · (!shown)) s
  (s.pathsOf c).foldl (fun s path => s.modifyGroup path FileGroup.refresh) flagged

/-- Brings one finding and its file in line with a mask; nothing if the reference does not resolve. -/
def applyMask (s : Store) (m : Mask) (r : Ref) : Store :=
  match s.resolve r with
  | none => s
  | some f =>
    s.modifyGroup r.path fun g =>
      (g.modifyAt r.index.toNat (setHidden (!m.shows f.category))).refresh

/-- The group with every flag computed from a mask. -/
def recomputeGroup (m : Mask) (g : FileGroup) : FileGroup :=
  FileGroup.refresh { g with findings := g.findings.map fun f => setHidden (!m.shows f.category) f }

/-- Brings all flags in line with a mask. -/
def recompute (s : Store) (m : Mask) : Store := { s with files := s.files.map (recomputeGroup m) }

end Store
end Findings
