/-!
# Limits and Outcomes

How far an exploration may go, and how it ended. The depth limit counts levels
that are expanded; the state limit counts states that are kept. A limit that
is not set does not hold the exploration back.

## Main definitions

* `Limits`: A depth limit and a state limit, each of which may be absent.
* `Outcome`: Complete, or stopped by one of the limits.
-/

namespace Interleaving

/-- How far an exploration may go. -/
structure Limits where
  maxDepth : Option Nat
  maxStates : Option Nat
  deriving DecidableEq, Repr

namespace Limits

/-- No limits. -/
def unbounded : Limits :=
  ⟨none, none⟩

/-- Whether there is a limit. -/
def isBounded (l : Limits) : Bool :=
  l.maxDepth.isSome || l.maxStates.isSome

/-- Whether a number has come up to a limit. -/
def reached (limit : Option Nat) (n : Nat) : Bool :=
  match limit with
  | some bound => bound ≤ n
  | none => false

/-- Whether `depth` levels are as many as may be expanded. -/
def depthReached (l : Limits) (depth : Nat) : Bool :=
  reached l.maxDepth depth

/-- Whether `states` states are as many as may be kept. -/
def statesReached (l : Limits) (states : Nat) : Bool :=
  reached l.maxStates states

end Limits

/-- How an exploration ended. -/
inductive Outcome where
  | complete
  | depthLimit
  | stateLimit
  deriving DecidableEq, Repr

namespace Outcome

/-- An outcome in words. -/
def text : Outcome → String
  | complete => "complete"
  | depthLimit => "depth limit reached"
  | stateLimit => "state limit reached"

/-- Whether everything that can be reached was found. -/
def isComplete : Outcome → Bool
  | complete => true
  | _ => false

end Outcome

end Interleaving
