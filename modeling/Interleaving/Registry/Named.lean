import Interleaving.Registry

/-!
# Handlers for Named Actions and Conditions

Small handlers beside the ones for scripts, each for texts
that are names rather than programs: an action that takes a token, an action
that can be taken a limited number of times, a claim on everything, a condition
that asks whether a variable is bound, a condition with a fixed answer, and a
gate through which two named actions pass together.

The limited action has to remember how often it was taken. Its counts live in a
state `Uses`, one count for each handler, so that two limited actions do not
share theirs and a count survives a failure.

## Main definitions

* `ActionHandler.token`, `ActionHandler.claim`, `ActionHandler.limited`
* `ConditionHandler.bound`, `ConditionHandler.constant`
* `RendezvousHandler.gate`
-/

namespace Interleaving

/-- How often each limited action was taken, by the number of its handler. -/
abbrev Uses : Type :=
  List Nat

/-- The count of a handler. -/
def Uses.count (uses : Uses) (handler : Nat) : Nat :=
  uses[handler]?.getD 0

/-- The counts after one more use. Handlers that have not been counted yet have
    been used zero times. -/
def Uses.increment (uses : Uses) : (handler : Nat) → Uses
  | 0 => match uses with
    | [] => [1]
    | used :: rest => (used + 1) :: rest
  | handler + 1 => match uses with
    | [] => 0 :: Uses.increment [] handler
    | used :: rest => used :: Uses.increment rest handler

variable {m : Type → Type} [Monad m]

/-- The action `name` takes one token of the variable `tokens`, and is disabled
    when there is none. -/
def ActionHandler.token (name tokens : String) : ActionHandler m where
  recognizes action := action = name
  effect env _ := return do
    let n ← (← env.get? tokens).int?
    if 0 < n.toInt then some (env.insert tokens (.int (n - 1))) else none

/-- Every action is taken for a claim of `owner`, which the variable `owner`
    records. -/
def ActionHandler.claim (owner : String) : ActionHandler m where
  recognizes _ := true
  effect env _ := return some (env.insert "owner" (.str owner))

/-- The action `name` changes nothing and is disabled after `limit` uses. The
    number tells limited actions apart. -/
def ActionHandler.limited [MonadStateOf Uses m] (number : Nat) (name : String) (limit : Nat) :
    ActionHandler m where
  recognizes action := action = name
  effect env _ := do
    let uses ← getThe Uses
    set (Uses.increment uses number)
    return if Uses.count uses number < limit then some env else none

/-- The name after `bound:` in a condition that begins so. -/
def boundName? (condition : String) : Option String :=
  let marker := "bound:".toList
  if marker.isPrefixOf condition.toList then
    some (String.ofList (condition.toList.drop marker.length))
  else none

/-- The condition `bound:x` holds when the variable `x` is bound. -/
def ConditionHandler.bound : ConditionHandler m where
  recognizes condition := (boundName? condition).isSome
  holds env condition :=
    match boundName? condition with
    | some name => return env.contains name
    | none => throw (.unrecognizedCondition condition)

/-- The condition `text` always has the same answer. -/
def ConditionHandler.constant (text : String) (answer : Bool) : ConditionHandler m where
  recognizes condition := condition = text
  holds _ _ := return answer

/-- The actions `left` and `right` wait for each other, and pass together, in
    this order, while the variable `open` is true. Then `met` is true. -/
def RendezvousHandler.gate (left right : String) : RendezvousHandler m where
  isOneSided action := action = left || action = right
  isMatching combined := combined = combine left right
  effect env _ :=
    return if env.get? "open" = some (.bool true) then some (env.insert "met" (.bool true))
      else none

end Interleaving
