import Interleaving.Value

/-!
# Evaluation Failures

Why a guard, an action or a step cannot be evaluated. Each cause is a
constructor and carries what is needed to name it; the wording is in one place,
`EvalError.message`.

Being disabled is no failure. A guard that does not hold, or an action that
cannot be taken in some environment, is an ordinary answer of the handlers.

## Main definitions

* `EvalError`: The causes.
* `EvalError.message`: Their wording.
-/

namespace Interleaving

/-- Why an evaluation fails. -/
inductive EvalError where
  /-- No action handler recognizes the text. -/
  | unrecognizedAction (action : String)
  /-- No condition handler recognizes the text. -/
  | unrecognizedCondition (condition : String)
  /-- The variable is not bound. -/
  | unboundVariable (name : String)
  /-- An operand has a type the operator is not defined on. -/
  | typeMismatch (operator : String) (expected found : ValueType)
  /-- The divisor is zero. -/
  | divisionByZero
  /-- The exact result is no 64-bit integer. -/
  | integerOverflow
  /-- An initialization action cannot be taken. -/
  | inapplicableInitialization (action : String)
  /-- An action that was listed as possible cannot be taken any more. -/
  | inapplicableEffect (action : String)
  /-- A state has a location for a process that the system does not have. -/
  | noSuchProcess (index : Nat)
  /-- A step names an edge that the graph does not have. -/
  | noSuchEdge (index : Nat)
  deriving DecidableEq, Repr

namespace EvalError

/-- The wording of a failure. -/
def message : EvalError → String
  | unrecognizedAction action => "No registered action handler recognizes '" ++ action ++ "'"
  | unrecognizedCondition condition =>
    "No registered condition handler recognizes '" ++ condition ++ "'"
  | unboundVariable name => "Variable '" ++ name ++ "' is not bound in the environment"
  | typeMismatch operator expected found =>
    "Operator '" ++ operator ++ "' expects " ++ expected.name ++ ", found " ++ found.name
  | divisionByZero => "Division by zero"
  | integerOverflow => "Integer overflow"
  | inapplicableInitialization action =>
    "Initialization action '" ++ action ++ "' is not applicable"
  | inapplicableEffect action =>
    "Action '" ++ action ++ "' became inapplicable while computing a successor"
  | noSuchProcess index => "Process " ++ Nat.repr index ++ " is not part of the channel system"
  | noSuchEdge index => "Edge " ++ Nat.repr index ++ " is not part of the program graph"

end EvalError

end Interleaving
