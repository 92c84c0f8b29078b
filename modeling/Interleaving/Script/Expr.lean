import Interleaving.EvalError
import Interleaving.Environment

/-!
# Expressions, Statements and Channel Operations

Guards and actions are scripts, short texts in a language of their own. This is
what scripts mean, and how they are evaluated. A guard is an expression, an
action is a sequence of statements, and a send or a receive is one half of a
rendezvous.

Evaluation is strict from left to right. The two logical operators check that
their left operand is a boolean before anything else and look at the right one
only if the left does not decide. Every other operator evaluates both operands
first and checks their types afterwards, the left one first, so an unbound
variable on the right is reported before a wrong type on the left.

Integers are exact or refused: an operation whose result is no 64-bit integer
fails, and so does the remainder of the least integer by minus one, whose
quotient does not fit.

## Main definitions

* `Expr`: Expressions.
* `Expr.eval`: The value of an expression in an environment.
* `Expr.holds`: An expression as a guard.
* `Statement.run`: A sequence of statements as a change of the environment.
* `ChannelOp`: Sends and receives.
-/

namespace Interleaving

namespace Script

/-- Operators with one operand. -/
inductive UnaryOp where
  | not
  | neg
  deriving DecidableEq, Repr

/-- Comparisons of integers by size. -/
inductive Comparison where
  | lt
  | le
  | gt
  | ge
  deriving DecidableEq, Repr

/-- Operations of integer arithmetic. -/
inductive Arithmetic where
  | add
  | sub
  | mul
  | div
  | rem
  deriving DecidableEq, Repr

/-- Operators with two operands. -/
inductive BinaryOp where
  | or
  | and
  | equal
  | unequal
  | compare (comparison : Comparison)
  | arith (operation : Arithmetic)
  deriving DecidableEq, Repr

/-- How a text writes an operator, and how messages name it. -/
def BinaryOp.symbol : BinaryOp → String
  | or => "||"
  | and => "&&"
  | equal => "=="
  | unequal => "!="
  | compare .lt => "<"
  | compare .le => "<="
  | compare .gt => ">"
  | compare .ge => ">="
  | arith .add => "+"
  | arith .sub => "-"
  | arith .mul => "*"
  | arith .div => "/"
  | arith .rem => "%"

/-- Expressions over the variables of an environment. -/
inductive Expr where
  | literal (value : Value)
  | var (name : String)
  | unary (op : UnaryOp) (operand : Expr)
  | binary (op : BinaryOp) (left right : Expr)
  deriving DecidableEq, Repr

/-- One statement of an action. -/
inductive Statement where
  | skip
  | assign (target : String) (value : Expr)
  deriving DecidableEq, Repr

/-- One half of a rendezvous. -/
inductive ChannelOp where
  | send (channel : String) (value : Expr)
  | receive (channel : String) (target : String)
  deriving DecidableEq, Repr

/-- The channel an operation is on. -/
def ChannelOp.channel : ChannelOp → String
  | send channel _ => channel
  | receive channel _ => channel

/-- The integer an operator needs. -/
def expectInt (operator : String) (value : Value) : Except EvalError Int64 :=
  match value.int? with
  | some n => .ok n
  | none => .error (.typeMismatch operator .int value.type)

/-- The two integers an operator needs, the left one checked first. -/
def expectInts (operator : String) (left right : Value) : Except EvalError (Int64 × Int64) := do
  let m ← expectInt operator left
  let n ← expectInt operator right
  return (m, n)

/-- The boolean an operator needs. -/
def expectBool (operator : String) (value : Value) : Except EvalError Bool :=
  match value.bool? with
  | some b => .ok b
  | none => .error (.typeMismatch operator .bool value.type)

/-- An exact integer as a value, if it is a 64-bit integer. -/
def exactly (n : Int) : Except EvalError Value :=
  match checked n with
  | some k => .ok (.int k)
  | none => .error .integerOverflow

/-- Whether two integers compare as asked. -/
def Comparison.decides (comparison : Comparison) (a b : Int) : Bool :=
  match comparison with
  | lt => a < b
  | le => a ≤ b
  | gt => b < a
  | ge => b ≤ a

/-- An operation on two integers. The quotient is cut off towards zero and the
    remainder has the sign of the dividend; a remainder whose quotient is no
    64-bit integer is refused together with it. -/
def Arithmetic.apply (operation : Arithmetic) (a b : Int) : Except EvalError Value :=
  match operation with
  | add => exactly (a + b)
  | sub => exactly (a - b)
  | mul => exactly (a * b)
  | div => if b = 0 then .error .divisionByZero else exactly (a.tdiv b)
  | rem =>
    if b = 0 then .error .divisionByZero
    else if (checked (a.tdiv b)).isNone then .error .integerOverflow
    else exactly (a.tmod b)

namespace Expr

/-- The value of an expression. -/
def eval (env : Environment) : Expr → Except EvalError Value
  | literal value => .ok value
  | var name =>
    match env.get? name with
    | some value => .ok value
    | none => .error (.unboundVariable name)
  | unary .not operand => do
    let b ← expectBool "!" (← eval env operand)
    return .bool !b
  | unary .neg operand => do
    let n ← expectInt "-" (← eval env operand)
    exactly (-n.toInt)
  | binary .or left right => do
    if ← expectBool BinaryOp.or.symbol (← eval env left) then
      return .bool true
    else
      return .bool (← expectBool BinaryOp.or.symbol (← eval env right))
  | binary .and left right => do
    if ← expectBool BinaryOp.and.symbol (← eval env left) then
      return .bool (← expectBool BinaryOp.and.symbol (← eval env right))
    else
      return .bool false
  | binary .equal left right => do
    let a ← eval env left
    let b ← eval env right
    return .bool (a = b)
  | binary .unequal left right => do
    let a ← eval env left
    let b ← eval env right
    return .bool (a ≠ b)
  | binary (.compare comparison) left right => do
    let a ← eval env left
    let b ← eval env right
    let (m, n) ← expectInts (BinaryOp.compare comparison).symbol a b
    return .bool (comparison.decides m.toInt n.toInt)
  | binary (.arith operation) left right => do
    let a ← eval env left
    let b ← eval env right
    let (m, n) ← expectInts (BinaryOp.arith operation).symbol a b
    operation.apply m.toInt n.toInt

/-- Whether an expression holds as a guard. -/
def holds (env : Environment) (e : Expr) : Except EvalError Bool := do
  expectBool "guard" (← e.eval env)

end Expr

namespace Statement

/-- The environment after one statement. -/
def step (env : Environment) : Statement → Except EvalError Environment
  | skip => .ok env
  | assign target value => do
    return env.insert target (← value.eval env)

/-- The environment after a sequence of statements, each of which sees what the
    ones before it did. -/
def run (statements : List Statement) (env : Environment) : Except EvalError Environment :=
  statements.foldlM step env

end Statement

end Script

end Interleaving
