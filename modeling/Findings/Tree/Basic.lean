import Findings.Application
import Findings.Path.Strip
import Findings.Report.Export
import Findings.Store.Filtered

/-!
# The tree of findings

The tree takes reported findings in (classified, stored, and hidden or shown by the mask) and gives them
out as rows, reports and targets to open.
-/

namespace Findings

structure Tree where
  view : Filtered := {}
  policy : PathPolicy := {}
  applications : Registry := {}

namespace Tree

def store (t : Tree) : Store := t.view.store

def mask (t : Tree) : Mask := t.view.mask

/-- A new tree, with the categories of `entries` shown or hidden as they say. -/
def new (policy : PathPolicy) (entries : List (CategoryCode × Bool)) (applications : Registry) :
    Except Error Tree :=
  (Mask.ofEntries entries).map fun mask => { view := { mask }, policy, applications }

/-! ## Inbound -/

/-- The category of a reported label, and whether it is known; a list or an object is no label. -/
def classify (label : Value) : Except Error (Category × Bool) :=
  match label with
  | .text t => .ok (Category.classify t, Category.isKnown t)
  | .list _ | .object _ => .error .compoundLabel
  | _ => .ok (Category.fallback, false)

def toLocation (file line : Value) : Except Error Location :=
  match file.toCanonicalPath with
  | .error e => .error e
  | .ok file => match line.toLine with
    | .error e => .error e
    | .ok line => .ok ⟨file, line⟩

/-- The locations of a backtrace, up to the first that is none. -/
def toLocations : List (Value × Value) → Except Error (List Location)
  | [] => .ok []
  | (file, line) :: rest =>
    match toLocation file line with
    | .error e => .error e
    | .ok l => match toLocations rest with
      | .error e => .error e
      | .ok ls => .ok (l :: ls)

/-- A finding as the analysis engine reports it. -/
structure Report where
  file : Value
  severity : Value
  message : Value
  backtrace : List (Value × Value) := []
  id : Value := .text []
deriving Repr

/-- A finding whose files and lines come in two lists; of the longer one the rest is dropped. -/
def Report.ofLists (file severity message : Value) (files lines : List Value) (id : Value) : Report where
  file := file
  severity := severity
  message := message
  backtrace := files.zip lines
  id := id

/-- What is handed to the store for a report filed under `c`. -/
def submission (r : Report) (c : Category) : Except Error Submission :=
  match toLocations r.backtrace with
  | .error e => .error e
  | .ok backtrace => match r.file.orEmpty with
    | .text file =>
      .ok
        { file
          category := .real c
          message := r.message
          backtrace := .ok backtrace
          id := r.id
          label := r.severity }
    | _ => .error .fileNotText

/-- Adds a reported finding. An unknown label is logged. -/
def add (t : Tree) (r : Report) : Outcome Tree Ref :=
  match classify r.severity with
  | .error e => .error t e
  | .ok (c, known) =>
    let log := if known then [] else [.unknownSeverity r.severity r.file c]
    match submission r c with
    | .error e => .error t e log
    | .ok n =>
      match t.view.add n with
      | ⟨view, .ok ref, _⟩ => .ok { t with view := view.apply ref } ref log
      | ⟨view, .error e, _⟩ => .error { t with view } e log

def clear (t : Tree) : Outcome Tree Unit := .ok { t with view := t.view.clear } () [.cleared]

/-! ## Visibility and settings -/

def showCategory (t : Tree) (code : CategoryCode) (shown : Bool) : Outcome Tree Unit :=
  let o := t.view.setMask code shown
  ⟨{ t with view := o.state }, o.result, o.log⟩

def showCategories (t : Tree) (entries : List (CategoryCode × Bool)) : Outcome Tree Unit :=
  let o := t.view.setMasks entries
  ⟨{ t with view := o.state }, o.result, o.log⟩

def updateSettings (t : Tree) (showFullPath saveFullPath saveAllErrors : Bool) : Outcome Tree Unit :=
  .ok { t with policy := { t.policy with showFullPath, saveFullPath, saveAllErrors } } ()
    [.settingsUpdated showFullPath saveFullPath saveAllErrors]

def setCheckDirectory (t : Tree) (directory : Text) : Tree :=
  { t with policy := { t.policy with checkDirectory := Path.canonical directory } }

def register (t : Tree) (a : Application) : Tree :=
  { t with applications := t.applications.register a }

/-! ## Outbound -/

/-- A finding as it is listed, with its paths as they are shown and the reference to it. -/
structure FindingRow where
  finding : Finding
  ref : Ref
deriving Repr

structure FileRow where
  /-- The path as it is shown. -/
  file : Text
  path : Text
  hidden : Bool
  findings : List FindingRow
deriving Repr

/-- The finding with its paths as they are shown. -/
def displayed (policy : PathPolicy) (f : Finding) : Finding :=
  { f with
    file := Path.toDisplay policy f.file
    backtrace := f.backtrace.map fun l => { l with file := Path.toDisplay policy l.file } }

def fileRow (t : Tree) (includeHidden : Bool) (g : FileGroup) : FileRow where
  file := Path.toDisplay t.policy g.path
  path := g.path
  hidden := g.hidden
  findings := (g.findings.zipIdx.filter fun p => includeHidden || !p.1.hidden).map fun p =>
    ⟨displayed t.policy p.1, ⟨g.path, p.2, t.store.generation⟩⟩

/-- The listing: a row for each file, and in it one for each finding. -/
def rows (t : Tree) (includeHidden : Bool) : List FileRow :=
  (t.store.groups includeHidden).map (t.fileRow includeHidden)

def exported (t : Tree) (format : Value) : Except Error Text := t.store.exported format t.policy

def save (t : Tree) (sink : Sink) (format : Value) : Saving := t.store.save sink format t.policy

/-- Where a finding is reported: the last location of its backtrace, or its file at line zero. -/
def place (f : Finding) : Location := f.backtrace.getLast?.getD ⟨f.file, 0⟩

/-- `file` seen from the checked directory, if there is one and `file` is relative. -/
def fromDirectory (directory file : Text) : Text :=
  if directory = [] || file = [] || Path.isAbsolute file then file
  else Path.canonical (directory ++ [Path.slash] ++ file)

/-- What an application is told to open for a finding. -/
def target (t : Tree) (f : Finding) : Target where
  file := fromDirectory t.policy.checkDirectory (place f).file
  line := (place f).line
  message := f.message
  id := f.id

/-- What opening a finding did: its answer, the application that was called with what, and the events. -/
structure Opening where
  result : Except Error Target
  calls : List (Application × Target) := []
  log : List Log.Event := []

/-- Opens a finding in an application, in the first one if none is named. -/
def openFinding (t : Tree) (r : Ref) (selector : Option Selector) : Opening :=
  match t.store.resolve r with
  | none => { result := .error (.saying r.index (.noFinding r.path r.index)) }
  | some f => match t.applications.pick (selector.getD (.position 0)) with
    | .error e => { result := .error e }
    | .ok a =>
      let target := t.target f
      match a.failure target with
      | some fault => { result := .error (.applicationFailed fault), calls := [(a, target)] }
      | none => ⟨.ok target, [(a, target)], [.opened a.name target.file]⟩

end Tree
end Findings
