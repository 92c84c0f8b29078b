import Interleaving.Dynamics

/-!
# Walks

One run through a state space, chosen by a list of numbers: at each state the
number picks one of the inputs, counted round if there are fewer. A walk ends
with its numbers, at a state without inputs, or with a failure.

## Main definitions

* `Walk`: A start with the steps taken from it.
* `Dynamics.walk`: The walk from the first initial state.
-/

namespace Interleaving

/-- One step of a walk. -/
structure WalkStep (σ : Type) where
  /-- How many inputs there were to choose from. -/
  choices : Nat
  /-- The action of the chosen one. -/
  action : String
  /-- The state it led to. -/
  target : σ

/-- A run through a state space. -/
structure Walk (σ : Type) where
  start : σ
  steps : List (WalkStep σ)
  /-- The failure that ended the walk, if one did. -/
  failure : Option EvalError

namespace Dynamics

variable {m : Type → Type} [Monad m] {σ ι : Type}

/-- The walk from a state. -/
def walkFrom (d : Dynamics m σ ι) (start : σ) : List Nat → m (Walk σ)
  | [] => return ⟨start, [], none⟩
  | choice :: rest => do
    match ← (d.inputs start).run with
    | .error e => return ⟨start, [], some e⟩
    | .ok inputs =>
      match inputs[choice % inputs.length]? with
      | none => return ⟨start, [], none⟩
      | some input =>
        match ← (d.next start input).run with
        | .error e => return ⟨start, [], some e⟩
        | .ok target =>
          let walk ← d.walkFrom target rest
          let step := ⟨inputs.length, d.action input, target⟩
          return { walk with start, steps := step :: walk.steps }

/-- The walk from one of the initial states, or nothing if there is none. The
    initial states may be put in order first. -/
def walk (d : Dynamics m σ ι) (arrange : List σ → List σ) (choices : List Nat) :
    Eval m (Option (Walk σ)) := do
  match arrange (← d.initial) with
  | [] => return none
  | start :: _ => some <$> ExceptT.lift (d.walkFrom start choices)

end Dynamics

end Interleaving
