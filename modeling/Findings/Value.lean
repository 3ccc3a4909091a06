import Findings.Category
import Findings.Number.Shortest
import Findings.Text.Decimal
import Findings.Text.Quoted

/-!
# Values

What a findings file, a request body or a log call may hold: the values of JSON, with exact integers,
and category codes. A value has a written form, which tells texts from numbers by quotes, and a
displayed form, in which a text stands for itself.
-/

namespace Findings

inductive Value where
  | null
  | bool (b : Bool)
  | int (n : Int)
  | float (x : Binary64)
  | text (t : Text)
  | list (items : List Value)
  | object (fields : List (Text × Value))
  | category (c : CategoryCode)
deriving Repr, Inhabited

namespace Value

instance : Coe Text Value := ⟨text⟩

/-- Null, false, zero and what is empty do not count as given. -/
def isGiven : Value → Bool
  | null => false
  | bool b => b
  | int n => n ≠ 0
  | float x => !x.isZero
  | text t => t ≠ []
  | list items => !items.isEmpty
  | object fields => !fields.isEmpty
  | category _ => true

/-- `v`, or the empty text if it does not count as given. -/
def orEmpty (v : Value) : Value := if v.isGiven then v else text []

def boolWord (b : Bool) : Text := if b then "True" else "False"

mutual

/-- The written form; `quote` says how texts are quoted. -/
def writtenWith (quote : Text → Text) : Value → Text
  | null => "None"
  | bool b => boolWord b
  | int n => Text.ofInt n
  | float x => x.written
  | text t => quote t
  | list items => "[" ++ Text.join ", " (writtenItems quote items) ++ "]"
  | object fields => "\x7b" ++ Text.join ", " (writtenFields quote fields) ++ "\x7d"
  | category c => c.written

def writtenItems (quote : Text → Text) : List Value → List Text
  | [] => []
  | v :: vs => writtenWith quote v :: writtenItems quote vs

def writtenFields (quote : Text → Text) : List (Text × Value) → List Text
  | [] => []
  | (k, v) :: fs => (quote k ++ ": " ++ writtenWith quote v) :: writtenFields quote fs

end

def written (v : Value) : Text := v.writtenWith Text.quoted

/-- The form in which a value appears inside a message. -/
def display : Value → Text
  | text t => t
  | category c => c.display
  | v => v.written

mutual

/-- How deep lists and objects are nested. -/
def depth : Value → Nat
  | list items => depthOfItems items + 1
  | object fields => depthOfFields fields + 1
  | _ => 0

/-- The greatest depth of the items. -/
def depthOfItems : List Value → Nat
  | [] => 0
  | v :: vs => max (depth v) (depthOfItems vs)

def depthOfFields : List (Text × Value) → Nat
  | [] => 0
  | (_, v) :: fs => max (depth v) (depthOfFields fs)

end

mutual

/-- Whether every integer in the value can be written out. -/
def isLegible : Value → Bool
  | int n => decide (Legible n)
  | list items => areLegible items
  | object fields => fieldsLegible fields
  | _ => true

def areLegible : List Value → Bool
  | [] => true
  | v :: vs => isLegible v && areLegible vs

def fieldsLegible : List (Text × Value) → Bool
  | [] => true
  | (_, v) :: fs => isLegible v && fieldsLegible fs

end

/-- The value of a field, if the object has it. -/
def field? (fields : List (Text × Value)) (key : Text) : Option Value :=
  (fields.find? fun f => f.1 = key).map (·.2)

/-- The fields with `key` set to `v`: in its old place, or at the end. -/
def setField (fields : List (Text × Value)) (key : Text) (v : Value) : List (Text × Value) :=
  if fields.any (·.1 = key) then fields.map fun f => if f.1 = key then (key, v) else f
  else fields ++ [(key, v)]

def text? : Value → Option Text
  | text t => some t
  | _ => none

end Value
end Findings
