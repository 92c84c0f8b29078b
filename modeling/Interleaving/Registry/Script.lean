import Interleaving.Script.Parser
import Interleaving.Registry
import Interleaving.Text.Blank

/-!
# Handlers for Scripts

The registry a model uses unless it brings handlers of its own. Actions are
sequences of assignments and are always enabled. Conditions are expressions,
and a blank condition always holds. A rendezvous is a send and a receive on the
same channel, in either order; it binds the receiver's variable to the value of
the sent expression.

## Main definitions

* `Script.actionHandler`, `Script.conditionHandler`,
  `Script.rendezvousHandler`: The handlers.
* `Script.ChannelOp.exchange?`: What a send and a receive do together.
* `Registry.standard`: The registry of the three handlers.
-/

namespace Interleaving

namespace Script

variable {m : Type → Type} [Monad m]

/-- What is sent and the variable it goes to, if one of the two operations is a
    send and the other a receive on the same channel. -/
def ChannelOp.exchange? (first second : ChannelOp) : Option (Expr × String) :=
  if first.channel = second.channel then
    match first, second with
    | .send _ value, .receive _ target => some (value, target)
    | .receive _ target, .send _ value => some (value, target)
    | _, _ => none
  else none

/-- What is sent and the variable it goes to, read from a combined text. -/
def exchange? (combined : String) : Option (Expr × String) := do
  let (first, second) ← ChannelOp.parsePair? combined
  first.exchange? second

/-- Actions are sequences of assignments, always enabled. -/
def actionHandler : ActionHandler m where
  recognizes action := (Statement.parse? action).isSome
  effect env action :=
    match Statement.parse? action with
    | some statements => some <$> ofExcept (Statement.run statements env)
    | none => throw (.unrecognizedAction action)

/-- Conditions are expressions. A blank condition always holds. -/
def conditionHandler : ConditionHandler m where
  recognizes condition := Text.isBlank condition || (Expr.parse? condition).isSome
  holds env condition :=
    if Text.isBlank condition then return true
    else
      match Expr.parse? condition with
      | some e => ofExcept (e.holds env)
      | none => throw (.unrecognizedCondition condition)

/-- Sends and receives meet on a channel of the same name. -/
def rendezvousHandler : RendezvousHandler m where
  isOneSided action := (ChannelOp.parse? action).isSome
  isMatching combined := (exchange? combined).isSome
  effect env combined :=
    match exchange? combined with
    | some (value, target) => do
      return some (env.insert target (← ofExcept (value.eval env)))
    | none => throw (.unrecognizedAction combined)

end Script

/-- The registry of the handlers for scripts. -/
def Registry.standard {m : Type → Type} [Monad m] : Registry m where
  actions := [Script.actionHandler]
  conditions := [Script.conditionHandler]
  rendezvous := [Script.rendezvousHandler]

end Interleaving
