import Interleaving.Dynamics

/-!
# State Spaces Given by a Table

A state space written out: its initial states, its edges and the labels of its
states, all by name. A table may also say where asking fails, at the start, for
the inputs of a state, or when an action is taken; that makes it a model of
spaces that are not everywhere defined.

## Main definitions

* `Table`: Edges, labels and failures by name.
* `Table.dynamics`: The state space of a table.
-/

namespace Interleaving

/-- A state space written out. -/
structure Table where
  initial : List String
  /-- Source, action and target. -/
  edges : List (String × String × String)
  /-- Propositions of the states that have some. -/
  labels : List (String × List String)
  /-- Whether there is no telling where runs start. -/
  failsInitially : Bool
  /-- States whose inputs cannot be told. -/
  failingStates : List String
  /-- Actions that fail when they are taken. -/
  failingActions : List String

namespace Table

variable {m : Type → Type} [Monad m]

/-- An edge of a table without its source. -/
structure Input where
  action : String
  target : String
  deriving DecidableEq, Repr

/-- The edges that leave a state, in order. -/
def edgesFrom (t : Table) (state : String) : List Input :=
  (t.edges.filter (·.1 = state)).map fun (_, action, target) => ⟨action, target⟩

/-- The state space of a table. -/
def dynamics (t : Table) : Dynamics m String Input where
  initial := if t.failsInitially then throw .divisionByZero else return t.initial
  inputs state :=
    if state ∈ t.failingStates then throw (.unboundVariable state)
    else return t.edgesFrom state
  next _ input :=
    if input.action ∈ t.failingActions then throw (.inapplicableEffect input.action)
    else return input.target
  action := Input.action
  labels state := (t.labels.lookup state).getD []

end Table

end Interleaving
