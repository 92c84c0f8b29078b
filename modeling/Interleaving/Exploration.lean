import Interleaving.Dynamics
import Interleaving.Exploration.Limits
import Interleaving.TransitionSystem

/-!
# Exploration

From a state space described step by step to a transition system. The search
goes level by level: the initial states are the first level, and the states that
are first met while a level is expanded are the next one. Every input of every
state of a level becomes a transition. When no new states turn up, the search
is complete.

Two limits can end it before. The depth limit is looked at when a level is about
to be expanded. The state limit is looked at when a state turns up that is not
known yet: if as many states are known as may be kept, the whole search ends
there, and the transition that led to the state is not recorded. Initial states
are kept whatever the limit is. However the search ends, every state that was
kept gets its labels.

Nothing bounds the number of levels of an infinite state space without limits,
so the search takes a budget of levels and answers nothing when it is spent.
With a depth limit the budget need not be larger than that limit; with a state
limit every level but the last brings a new state.

Failures of the state space end the search at once. The references that the
search itself hands to the transition system are all to things it has added,
but they pass through the same checks as everybody's.

## Main definitions

* `Exploration`: A transition system with how it came about.
* `ExplorationError`: A failure of the state space, or a reference refused.
* `Search`: A level under expansion.
* `Dynamics.explore`: The search.
-/

namespace Interleaving

/-- What an exploration found. -/
structure Exploration (σ : Type) where
  system : TransitionSystem σ String String
  outcome : Outcome
  /-- How many levels were expanded to the end. -/
  depth : Nat
  deriving DecidableEq

/-- Why an exploration fails. -/
inductive ExplorationError (S A P : Type) where
  /-- The state space could not answer. -/
  | eval (e : EvalError)
  /-- The transition system refused a reference. -/
  | system (e : ReferenceError S A P)
  deriving DecidableEq, Repr

/-- The wording of a failed exploration. -/
def ExplorationError.message {S A P : Type} [Quotable S] [Quotable A] [Quotable P] :
    ExplorationError S A P → String
  | eval e => "evaluation error: " ++ e.message
  | system e => "transition system error: " ++ e.message

/-- Computations with the effects of `m` in which an exploration may fail. -/
abbrev Explore (m : Type → Type) (σ α : Type) : Type :=
  ExceptT (ExplorationError σ String String) m α

/-- A level of the search under expansion. -/
structure Search (σ : Type) where
  system : TransitionSystem σ String String
  /-- The states first met on this level, in order. -/
  fresh : List Nat
  /-- Whether a state was met that may not be kept. -/
  full : Bool

/-- An answer of the state space, as part of an exploration. -/
def Explore.ask {m : Type → Type} [Monad m] {σ α : Type} (x : Eval m α) : Explore m σ α :=
  ExceptT.adapt .eval x

/-- An answer of the transition system, as part of an exploration. -/
def Explore.enter {m : Type → Type} [Monad m] {σ α : Type}
    (x : Except (ReferenceError σ String String) α) : Explore m σ α :=
  ofExcept (x.mapError .system)

namespace Search

variable {σ : Type}

/-- Records a transition, and its action with it. -/
def connect (search : Search σ) (step : Transition Nat String) :
    Except (ReferenceError σ String String) (Search σ) := do
  return { search with system := ← search.system.after (Change.enterStep step) }

/-- Records a step from a state that is known to a state that may be new. A new
    state that may not be kept fills the search, and the step is dropped. -/
def record [DecidableEq σ] (search : Search σ) (limits : Limits) (source : Nat) (action : String)
    (target : σ) : Except (ReferenceError σ String String) (Search σ) :=
  match search.system.idOf? target with
  | some id => search.connect ⟨source, action, id⟩
  | none =>
    if limits.statesReached search.system.states.size then .ok { search with full := true }
    else
      let (system, id, _) := search.system.insertState target
      { search with system, fresh := search.fresh ++ [id] }.connect ⟨source, action, id⟩

end Search

namespace Dynamics

variable {m : Type → Type} [Monad m] {σ ι : Type} [DecidableEq σ]

/-- Follows inputs of a state, until the search is full. -/
def follow (d : Dynamics m σ ι) (limits : Limits) (source : Nat) (s : σ) :
    List ι → Search σ → Explore m σ (Search σ)
  | [], search => return search
  | input :: rest, search => do
    let target ← Explore.ask (d.next s input)
    let search ← Explore.enter (search.record limits source (d.action input) target)
    if search.full then return search else d.follow limits source s rest search

/-- Expands states of a level, until the search is full. -/
def expand (d : Dynamics m σ ι) (limits : Limits) :
    List Nat → Search σ → Explore m σ (Search σ)
  | [], search => return search
  | id :: rest, search => do
    let s ← Explore.enter (search.system.stateAt id)
    let inputs ← Explore.ask (d.inputs s)
    let search ← d.follow limits id s inputs search
    if search.full then return search else d.expand limits rest search

/-- Expands level after level, at most `budget` of them. Nothing comes out when
    the budget is spent before the search has ended. -/
def levels (d : Dynamics m σ ι) (limits : Limits) :
    (budget : Nat) → (depth : Nat) → (frontier : List Nat) →
    TransitionSystem σ String String → Explore m σ (Option (Exploration σ))
  | _, depth, [], system => return some ⟨system, .complete, depth⟩
  | budget, depth, frontier, system =>
    if limits.depthReached depth then return some ⟨system, .depthLimit, depth⟩
    else
      match budget with
      | 0 => return none
      | budget + 1 => do
        let search ← d.expand limits frontier ⟨system, [], false⟩
        if search.full then return some ⟨search.system, .stateLimit, depth⟩
        else d.levels limits budget (depth + 1) search.fresh search.system

/-- Enters initial states into a system, and lists those that were new. -/
def enterInitial : List σ → TransitionSystem σ String String →
    Except (ReferenceError σ String String) (TransitionSystem σ String String × List Nat)
  | [], system => return (system, [])
  | s :: rest, system => do
    let (system, id, isNew) := system.insertState s
    let system ← system.after (Change.markInitial id)
    let (system, frontier) ← enterInitial rest system
    return (system, if isNew then id :: frontier else frontier)

/-- Labels the state with a number. -/
def labelState (id : Nat) (system : TransitionSystem σ String String) (propositions : List String) :
    Except (ReferenceError σ String String) (TransitionSystem σ String String) :=
  propositions.foldlM (fun system p => system.after (Change.enterLabel id p)) system

/-- Labels every state of a system. -/
def labelStates (d : Dynamics m σ ι) (system : TransitionSystem σ String String) :
    Except (ReferenceError σ String String) (TransitionSystem σ String String) :=
  system.states.toList.zipIdx.foldlM
    (fun system (s, id) => labelState id system (d.labels s)) system

/-- The transition system of a state space, as far as the limits go. -/
def explore (d : Dynamics m σ ι) (limits : Limits) (budget : Nat) :
    Explore m σ (Option (Exploration σ)) := do
  let starts ← Explore.ask d.initial
  let (system, frontier) ← Explore.enter (enterInitial starts .empty)
  match ← d.levels limits budget 0 frontier system with
  | none => return none
  | some found =>
    let system ← Explore.enter (d.labelStates found.system)
    return some { found with system }

end Dynamics

end Interleaving
