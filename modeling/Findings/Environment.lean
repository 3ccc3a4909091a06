import Findings.Text.Octets
import Findings.Value

/-!
# Environment variables

A variable has a name and a value. To the operating system both are octets; a name is not empty and has no
equals sign, and a null octet stands in neither.
-/

namespace Findings

/-- Why a variable cannot be set. -/
inductive EnvironmentFault where
  | notEncodable
  | nullCharacter
  | equalsSignInName
  | emptyName
deriving DecidableEq, Repr

/-- The variables that are set. -/
structure Environment where
  entries : List (Text × Text) := []
deriving DecidableEq, Repr

namespace Environment

def get? (env : Environment) (name : Text) : Option Text :=
  (env.entries.find? fun e => e.1 = name).map (·.2)

/-- The environment with another value for a name. -/
def put (env : Environment) (name value : Text) : Environment where
  entries := (env.entries.filter fun e => e.1 ≠ name) ++ [(name, value)]

/-- Sets a variable, in the form in which the operating system keeps it. -/
def set (env : Environment) (name value : Text) : Except EnvironmentFault Environment :=
  match Octets.ofText? name, Octets.ofText? value with
  | some n, some v =>
    if n.contains 0 || v.contains 0 then .error .nullCharacter
    else if n.contains 0x3D then .error .equalsSignInName
    else if n.isEmpty then .error .emptyName
    else .ok (env.put (Octets.toText n) (Octets.toText v))
  | _, _ => .error .notEncodable

/-- The environment in which variables were set one after another. -/
def ofEntries (entries : List (Text × Text)) : Except EnvironmentFault Environment :=
  entries.foldlM (fun env e => env.set e.1 e.2) {}

end Environment
end Findings
