import Interleaving.ChannelSystem
import Interleaving.Dynamics.ProgramGraph

/-!
# The Dynamics of a Channel System

A state is one location for each process with one environment for all. Runs
start at every tuple of initial locations, in the one environment that all
initialization actions make, process after process.

Two kinds of moves leave a state. An ordinary action interleaves: one process
takes an edge and the others stay. A one-sided action fires only together with a
matching one of a later process; both processes move, and the move is recorded
under the combined text. The edges of a process are looked at in order, and the
partners of an edge by process and then by edge.

The successor is fixed when a move is found, so taking a move cannot fail.

A state may come from elsewhere and have more locations than there are
processes. The question what such a process can do fails when it is reached.

## Main definitions

* `SystemState`: Locations with an environment.
* `ChannelSystem.Move`: A step with its successor.
* `ChannelSystem.interleave`, `ChannelSystem.rendezvous`: The two kinds.
* `ChannelSystem.dynamics`: The state space of a system.
-/

namespace Interleaving

/-- One location for each process with one environment for all. -/
structure SystemState (L : Type) where
  locations : List L
  env : Environment
  deriving DecidableEq

namespace SystemState

variable {L : Type}

/-- A state as it reads in answers and messages. -/
def text [Quotable L] (s : SystemState L) : String :=
  "[location=" ++ String.intercalate "," (s.locations.map Quotable.quote) ++ ", eval=" ++
    s.env.text ++ "]"

instance [Quotable L] : Quotable (SystemState L) where
  quote := text

instance [Ord L] : Ord (SystemState L) where
  compare s t := (compare s.locations t.locations).then (compare s.env t.env)

end SystemState

namespace ChannelSystem

/-- A step of a channel system with the state it leads to. -/
structure Move (L : Type) where
  next : SystemState L
  action : String
  deriving DecidableEq

variable {m : Type → Type} [Monad m] {L : Type}

/-- The states runs start in. -/
def initialStates (c : ChannelSystem L) (r : Registry m) : Eval m (List (SystemState L)) := do
  let env ← r.runInitialization .empty c.initializationActions
  return c.initialTuples.map (⟨·, env⟩)

/-- The move of one process along an edge. -/
def interleave (r : Registry m) (s : SystemState L) (i : Nat) (e : Edge L) :
    Eval m (List (Move L)) := do
  match ← r.edgeEffect s.env e with
  | some env => return [⟨⟨s.locations.set i e.target, env⟩, e.action⟩]
  | none => return []

/-- The move of two processes along a pair of edges, if these match, both
    guards hold and the combined action is enabled. -/
def meet (r : Registry m) (s : SystemState L) (i : Nat) (e : Edge L) (j : Nat) (p : Edge L) :
    Eval m (Option (Move L)) := do
  let combined := combine e.action p.action
  if r.isOneSided p.action && r.isMatching combined then
    if ← r.bothHold s.env e.guard p.guard then
      return (← r.rendezvousEffect s.env combined).map fun env =>
        ⟨⟨(s.locations.set i e.target).set j p.target, env⟩, combined⟩
    else return none
  else return none

variable [DecidableEq L]

/-- The edges of a process that leave a location. -/
def edgesOf (c : ChannelSystem L) (process : Nat) (location : L) : Eval m (List (Edge L)) :=
  match c.processes[process]? with
  | some g => (g.leaving location).mapM g.edgeAt
  | none => throw (.noSuchProcess process)

/-- The moves of a process along a one-sided edge, with partners in the
    processes after it. -/
def rendezvous (c : ChannelSystem L) (r : Registry m) (s : SystemState L) (i : Nat)
    (e : Edge L) : Eval m (List (Move L)) := do
  let found ← (s.locations.zipIdx.drop (i + 1)).mapM fun (location, j) => do
    let partners ← c.edgesOf j location
    let met ← partners.mapM (meet r s i e j)
    return met.filterMap id
  return found.flatten

/-- The moves in which a process takes one of its edges, alone or as the first
    of two. -/
def movesOf (c : ChannelSystem L) (r : Registry m) (s : SystemState L) (i : Nat)
    (location : L) : Eval m (List (Move L)) := do
  let edges ← c.edgesOf i location
  let found ← edges.mapM fun e =>
    if r.isOneSided e.action then c.rendezvous r s i e else interleave r s i e
  return found.flatten

/-- The moves of a state. -/
def moves (c : ChannelSystem L) (r : Registry m) (s : SystemState L) :
    Eval m (List (Move L)) := do
  let found ← s.locations.zipIdx.mapM fun (location, i) => c.movesOf r s i location
  return found.flatten

/-- The state space of a channel system under a registry. -/
def dynamics (c : ChannelSystem L) (r : Registry m) : Dynamics m (SystemState L) (Move L) where
  initial := c.initialStates r
  inputs := c.moves r
  next _ move := return move.next
  action := Move.action
  labels s := s.env.propositions

end ChannelSystem

end Interleaving
