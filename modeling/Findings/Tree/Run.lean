import Findings.Tree.Basic

/-!
# Runs of a tree

The operations on a tree as data, one step for each, and runs of them. A reply holds the answer or the
error, and what left the tree on the way: log events, calls to a sink, calls to applications.
-/

namespace Findings.Tree

inductive Op where
  | add (r : Report)
  | clear
  | showCategory (code : CategoryCode) (shown : Bool)
  | showCategories (entries : List (CategoryCode × Bool))
  | updateSettings (showFullPath saveFullPath saveAllErrors : Bool)
  | setCheckDirectory (directory : Text)
  | register (a : Application)
  | rows (includeHidden : Bool)
  | exported (format : Value)
  | save (sink : Sink) (format : Value)
  | resolve (r : Ref)
  | target (r : Ref)
  | openFinding (r : Ref) (selector : Option Selector)

inductive Answer where
  | done
  | ref (r : Ref)
  | rows (rs : List FileRow)
  | report (t : Text)
  | finding (f : Option Finding)
  | target (t : Option Target)
deriving Repr

structure Reply where
  result : Except Error Answer
  log : List Log.Event := []
  sinkCalls : List Sink.Call := []
  openings : List (Application × Target) := []

/-- The tree after an operation, and its reply. -/
def step (t : Tree) : Op → Tree × Reply
  | .add r =>
    let o := t.add r
    (o.state, { result := o.result.map .ref, log := o.log })
  | .clear =>
    let o := t.clear
    (o.state, { result := o.result.map fun _ => .done, log := o.log })
  | .showCategory code shown =>
    let o := t.showCategory code shown
    (o.state, { result := o.result.map fun _ => .done, log := o.log })
  | .showCategories entries =>
    let o := t.showCategories entries
    (o.state, { result := o.result.map fun _ => .done, log := o.log })
  | .updateSettings showFullPath saveFullPath saveAllErrors =>
    let o := t.updateSettings showFullPath saveFullPath saveAllErrors
    (o.state, { result := o.result.map fun _ => .done, log := o.log })
  | .setCheckDirectory directory => (t.setCheckDirectory directory, { result := .ok .done })
  | .register a => (t.register a, { result := .ok .done })
  | .rows includeHidden => (t, { result := .ok (.rows (t.rows includeHidden)) })
  | .exported format => (t, { result := (t.exported format).map .report })
  | .save sink format =>
    let s := t.save sink format
    (t, { result := s.result.map .report, log := s.log, sinkCalls := s.calls })
  | .resolve r => (t, { result := .ok (.finding (t.store.resolve r)) })
  | .target r => (t, { result := .ok (.target ((t.store.resolve r).map t.target)) })
  | .openFinding r selector =>
    let o := t.openFinding r selector
    (t, { result := o.result.map fun a => .target (some a), log := o.log, openings := o.calls })

/-- The tree after a run. -/
def run (t : Tree) : List Op → Tree
  | [] => t
  | op :: ops => run (t.step op).1 ops

/-- The replies of a run. -/
def replies (t : Tree) : List Op → List Reply
  | [] => []
  | op :: ops => (t.step op).2 :: replies (t.step op).1 ops

end Findings.Tree
