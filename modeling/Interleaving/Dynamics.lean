import Interleaving.Registry

/-!
# Dynamics

A state space described step by step, without being written out: where runs
start, which inputs a state offers, where an input leads, and what holds in a
state. Exploration talks to nothing else, so one search serves a program graph,
a channel system, and anything else that can answer these questions.

The same state may be asked for again, so answers should depend on the state
alone; over the monad `Id` they do.

## Main definitions

* `Dynamics`: The questions and their answers.
-/

namespace Interleaving

/-- A state space over states `σ` and inputs `ι`. -/
structure Dynamics (m : Type → Type) (σ ι : Type) where
  /-- Where runs start. A state may be listed more than once. -/
  initial : Eval m (List σ)
  /-- The inputs a state offers, in order. -/
  inputs : σ → Eval m (List ι)
  /-- Where an input of a state leads. -/
  next : σ → ι → Eval m σ
  /-- The action an input is recorded under. -/
  action : ι → String
  /-- The propositions that hold in a state. -/
  labels : σ → List String

end Interleaving
