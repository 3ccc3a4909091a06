import Findings.Error

/-!
# External applications

A finding can be opened in an external application. Applications are registered under their names, in the
order of the first registration; a later one of the same name takes the place of the earlier. They are
picked by name or by position.
-/

namespace Findings

/-- What an application is told to open. -/
structure Target where
  file : Text
  line : Int
  message : Value
  id : Value := .text []
deriving Repr

/-- An application: its name, a tag by which its host knows it, and how it fails to open a target, if it
does. -/
structure Application where
  name : Text
  tag : Int := 0
  failure : Target → Option OpeningFault := fun _ => none

structure Registry where
  applications : List Application := []

inductive Selector where
  | name (t : Text)
  | position (i : Int)
deriving DecidableEq, Repr

namespace Registry

def names (r : Registry) : List Text := r.applications.map (·.name)

def register (r : Registry) (a : Application) : Registry :=
  if r.names.contains a.name then
    ⟨r.applications.map fun b => if b.name = a.name then a else b⟩
  else ⟨r.applications ++ [a]⟩

def get? (r : Registry) (name : Text) : Option Application :=
  r.applications.find? fun a => a.name = name

def pick (r : Registry) : Selector → Except Error Application
  | .position i =>
    match (if 0 ≤ i then r.applications[i.toNat]? else none) with
    | some a => .ok a
    | none => .error (.saying i (.noApplicationAt i r.applications.length))
  | .name t =>
    match r.get? t with
    | some a => .ok a
    | none => .error (.unknownApplication t r.names)

end Registry
end Findings
