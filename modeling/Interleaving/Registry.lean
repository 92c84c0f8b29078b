import Interleaving.EvalError
import Interleaving.Environment

/-!
# Handlers and Registries

Graphs carry guards and actions as texts and do not know what they mean. A
registry does: it holds handlers, tried in the order in which they were
registered, and the first one that recognizes a text decides what it means. A
text that no handler recognizes belongs to no language of the model and fails.

There are three kinds of handlers. An action handler gives the environment
after an action, or nothing when the action is disabled. A condition handler
tells whether a condition holds. A rendezvous handler knows which actions are
one-sided, that is, wait for a partner, which pairs of them match, and what a
matching pair does.

Handlers may have effects of their own, in a monad `m`; failing is apart from
that. A registry over `Id` is one of pure handlers, and a handler that counts
its calls lives over a monad of counters.

## Main definitions

* `Eval`: Computations that may fail with an `EvalError`.
* `ActionHandler`, `ConditionHandler`, `RendezvousHandler`: The three kinds.
* `Registry`: Handlers of all kinds, in order of registration.
* `combine`: The text of two one-sided actions taken together.
-/

namespace Interleaving

/-- Computations with the effects of `m` that may fail. -/
abbrev Eval (m : Type → Type) (α : Type) : Type :=
  ExceptT EvalError m α

/-- What some action texts do. -/
structure ActionHandler (m : Type → Type) where
  /-- The texts the handler is for. -/
  recognizes : String → Bool
  /-- The environment after an action, or nothing if it is disabled. -/
  effect : Environment → String → Eval m (Option Environment)

/-- When some condition texts hold. -/
structure ConditionHandler (m : Type → Type) where
  /-- The texts the handler is for. -/
  recognizes : String → Bool
  /-- Whether a condition holds. -/
  holds : Environment → String → Eval m Bool

/-- How some one-sided actions meet. -/
structure RendezvousHandler (m : Type → Type) where
  /-- The actions that wait for a partner. -/
  isOneSided : String → Bool
  /-- The combined texts of two actions that can be taken together. -/
  isMatching : String → Bool
  /-- The environment after a combined action, or nothing if it is disabled. -/
  effect : Environment → String → Eval m (Option Environment)

/-- A rendezvous handler that stands in for an action handler, for the combined
    texts it matches. -/
def RendezvousHandler.toActionHandler {m : Type → Type} (h : RendezvousHandler m) :
    ActionHandler m where
  recognizes := h.isMatching
  effect := h.effect

/-- The text of two one-sided actions taken together. -/
def combine (first second : String) : String :=
  first ++ "|" ++ second

/-- Handlers, each list in order of registration. -/
structure Registry (m : Type → Type) where
  actions : List (ActionHandler m)
  conditions : List (ConditionHandler m)
  rendezvous : List (RendezvousHandler m)

namespace Registry

variable {m : Type → Type}

/-- Whether an action waits for a partner. -/
def isOneSided (r : Registry m) (action : String) : Bool :=
  r.rendezvous.any (·.isOneSided action)

/-- Whether a combined action can be taken. -/
def isMatching (r : Registry m) (combined : String) : Bool :=
  r.rendezvous.any (·.isMatching combined)

/-- How many handlers of each kind there are, in words. -/
def summary (r : Registry m) : String :=
  "Definitions \x7b actions: " ++ Nat.repr r.actions.length ++ ", conditions: " ++
    Nat.repr r.conditions.length ++ ", interleaving: " ++ Nat.repr r.rendezvous.length ++ " \x7d"

variable [Monad m]

/-- The environment after an action, or nothing if it is disabled. -/
def effect (r : Registry m) (env : Environment) (action : String) :
    Eval m (Option Environment) :=
  match r.actions.find? (·.recognizes action) with
  | some handler => handler.effect env action
  | none => throw (.unrecognizedAction action)

/-- Whether a condition holds. -/
def holds (r : Registry m) (env : Environment) (condition : String) : Eval m Bool :=
  match r.conditions.find? (·.recognizes condition) with
  | some handler => handler.holds env condition
  | none => throw (.unrecognizedCondition condition)

/-- Whether two conditions hold. The second is looked at only if the first
    holds. -/
def bothHold (r : Registry m) (env : Environment) (first second : String) : Eval m Bool := do
  if ← r.holds env first then r.holds env second else return false

/-- The environment after a combined action, or nothing if it is disabled. -/
def rendezvousEffect (r : Registry m) (env : Environment) (combined : String) :
    Eval m (Option Environment) :=
  match r.rendezvous.find? (·.isMatching combined) with
  | some handler => handler.effect env combined
  | none => throw (.unrecognizedAction combined)

/-- The environment after a sequence of initialization actions, each of which
    has to be enabled. -/
def runInitialization (r : Registry m) (env : Environment) (actions : List String) :
    Eval m Environment :=
  actions.foldlM (fun env action => do
    match ← r.effect env action with
    | some next => return next
    | none => throw (.inapplicableInitialization action)) env

end Registry

end Interleaving
