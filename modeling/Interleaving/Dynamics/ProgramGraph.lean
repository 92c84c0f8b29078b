import Interleaving.Dynamics
import Interleaving.ProgramGraph

/-!
# The Dynamics of a Program Graph

A state is a location with an environment. Runs start at every initial location
in every initial environment; each initialization sequence makes one, from
nothing, and without sequences there is the empty one. All environments are
made before any location is looked at, so a sequence that fails makes the
whole question fail.

A state offers the edges that leave its location, in order, as far as the guard
holds and the action is enabled. The edges are looked up under the location in
the groups of the graph, and an input names its edge by index. The effect is not
kept with the input; it is computed again when the input is taken.

## Main definitions

* `ProgramState`: A location with an environment.
* `ProgramGraph.Input`: An enabled edge.
* `ProgramGraph.dynamics`: The state space of a graph.
-/

namespace Interleaving

/-- A location with an environment. -/
structure ProgramState (L : Type) where
  location : L
  env : Environment
  deriving DecidableEq

namespace ProgramState

variable {L : Type}

/-- A state as it reads in answers and messages. -/
def text [Quotable L] (s : ProgramState L) : String :=
  "[location=" ++ Quotable.quote s.location ++ ", eval=" ++ s.env.text ++ "]"

instance [Quotable L] : Quotable (ProgramState L) where
  quote := text

instance [Ord L] : Ord (ProgramState L) where
  compare s t := (compare s.location t.location).then (compare s.env t.env)

end ProgramState

/-- The environment after an edge, or nothing if its guard does not hold or its
    action is disabled. -/
def Registry.edgeEffect {m : Type → Type} [Monad m] {L : Type} (r : Registry m)
    (env : Environment) (e : Edge L) : Eval m (Option Environment) := do
  if ← r.holds env e.guard then r.effect env e.action else return none

namespace ProgramGraph

/-- An enabled edge of a graph. -/
structure Input where
  /-- The index of the edge. -/
  edge : Nat
  action : String
  deriving DecidableEq, Repr

variable {m : Type → Type} [Monad m] {L : Type}

/-- The environments runs start in. -/
def initialEnvironments (g : ProgramGraph L) (r : Registry m) : Eval m (List Environment) :=
  if g.initializations.isEmpty then return [.empty]
  else g.initializations.mapM (r.runInitialization .empty)

/-- The states runs start in. -/
def initialStates (g : ProgramGraph L) (r : Registry m) : Eval m (List (ProgramState L)) := do
  let environments ← g.initialEnvironments r
  return g.initial.toList.flatMap fun location => environments.map (⟨location, ·⟩)

/-- The edge with an index that has to be there. -/
def edgeAt (g : ProgramGraph L) (index : Nat) : Eval m (Edge L) :=
  match g.edges[index]? with
  | some e => return e
  | none => throw (.noSuchEdge index)

/-- The enabled edges of a state. -/
def inputs [DecidableEq L] (g : ProgramGraph L) (r : Registry m) (s : ProgramState L) :
    Eval m (List Input) := do
  let found ← (g.leaving s.location).mapM fun index => do
    let e ← g.edgeAt index
    return (← r.edgeEffect s.env e).map fun _ => (⟨index, e.action⟩ : Input)
  return found.filterMap id

/-- The state after an input. -/
def next (g : ProgramGraph L) (r : Registry m) (s : ProgramState L) (i : Input) :
    Eval m (ProgramState L) := do
  let e ← g.edgeAt i.edge
  match ← r.effect s.env e.action with
  | some env => return ⟨e.target, env⟩
  | none => throw (.inapplicableEffect e.action)

/-- The state space of a graph under a registry. -/
def dynamics [DecidableEq L] (g : ProgramGraph L) (r : Registry m) :
    Dynamics m (ProgramState L) Input where
  initial := g.initialStates r
  inputs := g.inputs r
  next := g.next r
  action := Input.action
  labels s := s.env.propositions

end ProgramGraph

end Interleaving
