import Findings.Error
import Findings.Log.Event

/-!
# Outcomes

An operation answers with the state it leaves, a result or an error, and the events it logged on the way.
A failing operation too leaves a state; what it had changed before it failed stays changed.
-/

namespace Findings

structure Outcome (σ α : Type) where
  state : σ
  result : Except Error α
  log : List Log.Event := []

namespace Outcome

def ok {σ α : Type} (state : σ) (a : α) (log : List Log.Event := []) : Outcome σ α :=
  ⟨state, .ok a, log⟩

def error {σ α : Type} (state : σ) (e : Error) (log : List Log.Event := []) : Outcome σ α :=
  ⟨state, .error e, log⟩

def map {σ α β : Type} (f : α → β) (o : Outcome σ α) : Outcome σ β :=
  ⟨o.state, o.result.map f, o.log⟩

end Outcome
end Findings
