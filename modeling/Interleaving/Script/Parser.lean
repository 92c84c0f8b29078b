import Interleaving.Script.Expr
import Interleaving.Script.Token

/-!
# Reading Guards, Actions and Channel Operations

The grammar of the language, read from its tokens. From loosest to tightest
bind `||`, `&&`, one comparison, `+` and `-`, then `*`, `/` and `%`, and last the
signs `!` and `-` in front of an operand. The operators of one level group to
the left; a comparison does not chain.

A reader takes a list of tokens and gives what it read with the tokens that are
left. Parentheses are the only place where the grammar refers to itself, so
each level is written over a reader `nested` for what stands between
parentheses, and one recursion on the depth of nesting ties the knot. The
number of tokens bounds both the depth and the length of every chain of
operators, so it serves as the bound for both.

Four kinds of text are read: a condition is an expression, an action is a
sequence of statements with semicolons between them and possibly one at the end,
a one-sided action is a send `c!e` or a receive `c?x`, and a rendezvous is two
of those with a bar between them.

## Main definitions

* `Expr.parse?`: Reads a condition.
* `Statement.parse?`: Reads an action.
* `ChannelOp.parse?`: Reads a one-sided action.
* `ChannelOp.parsePair?`: Reads a rendezvous.
-/

namespace Interleaving

namespace Script

/-- Reads something from the front of a list of tokens, and gives the tokens
    that are left. -/
abbrev Reader (α : Type) : Type :=
  List Token → Option (α × List Token)

namespace Reader

/-- The operator of the loosest level. -/
def orOp? : Token → Option BinaryOp
  | .orOr => some .or
  | _ => none

/-- The operator of conjunctions. -/
def andOp? : Token → Option BinaryOp
  | .andAnd => some .and
  | _ => none

/-- The operators that compare. -/
def comparisonOp? : Token → Option BinaryOp
  | .eqEq => some .equal
  | .bangEq => some .unequal
  | .less => some (.compare .lt)
  | .lessEq => some (.compare .le)
  | .greater => some (.compare .gt)
  | .greaterEq => some (.compare .ge)
  | _ => none

/-- The operators of sums. -/
def sumOp? : Token → Option BinaryOp
  | .plus => some (.arith .add)
  | .minus => some (.arith .sub)
  | _ => none

/-- The operators of products. -/
def productOp? : Token → Option BinaryOp
  | .star => some (.arith .mul)
  | .slash => some (.arith .div)
  | .percent => some (.arith .rem)
  | _ => none

/-- An operand without operators: a literal, a variable, or an expression in
    parentheses. -/
def primary (nested : Reader Expr) : Reader Expr
  | .bool b :: rest => some (.literal (.bool b), rest)
  | .number n :: rest => some (.literal (.int n), rest)
  | .ident name :: rest => some (.var name, rest)
  | .opening :: rest =>
    match nested rest with
    | some (e, .closing :: rest) => some (e, rest)
    | _ => none
  | _ => none

/-- An operand with any number of signs in front of it, the first outermost. -/
def signed (nested : Reader Expr) : Reader Expr
  | .bang :: rest => (signed nested rest).map fun (e, rest) => (.unary .not e, rest)
  | .minus :: rest => (signed nested rest).map fun (e, rest) => (.unary .neg e, rest)
  | tokens => primary nested tokens

/-- Goes on with a chain of operators of one level, of which `left` has been
    read, for at most `bound` more operands. -/
def chainFrom (operator? : Token → Option BinaryOp) (operand : Reader Expr) :
    (bound : Nat) → Expr → Reader Expr
  | bound + 1, left, token :: rest =>
    match operator? token with
    | none => some (left, token :: rest)
    | some op =>
      match operand rest with
      | none => none
      | some (right, rest) => chainFrom operator? operand bound (.binary op left right) rest
  | _, left, tokens => some (left, tokens)

/-- Operands with operators of one level between them, grouped to the left. -/
def chain (operator? : Token → Option BinaryOp) (operand : Reader Expr) (bound : Nat) :
    Reader Expr := fun tokens =>
  match operand tokens with
  | none => none
  | some (left, rest) => chainFrom operator? operand bound left rest

/-- Products, quotients and remainders. -/
def product (nested : Reader Expr) (bound : Nat) : Reader Expr :=
  chain productOp? (signed nested) bound

/-- Sums and differences. -/
def sum (nested : Reader Expr) (bound : Nat) : Reader Expr :=
  chain sumOp? (product nested bound) bound

/-- A sum, or one comparison of two sums. -/
def comparison (nested : Reader Expr) (bound : Nat) : Reader Expr :=
  chain comparisonOp? (sum nested bound) 1

/-- Comparisons joined by `&&`. -/
def conjunction (nested : Reader Expr) (bound : Nat) : Reader Expr :=
  chain andOp? (comparison nested bound) bound

/-- Conjunctions joined by `||`. -/
def disjunction (nested : Reader Expr) (bound : Nat) : Reader Expr :=
  chain orOp? (conjunction nested bound) bound

/-- An expression in which parentheses nest less than `depth` deep. -/
def expr : (depth : Nat) → Reader Expr
  | 0 => fun _ => none
  | depth + 1 => disjunction (expr depth) depth

/-- An expression at the front of a list of tokens, which bounds its depth. -/
def expression : Reader Expr := fun tokens =>
  expr (tokens.length + 1) tokens

/-- One statement. -/
def statement : Reader Statement
  | .skip :: rest => some (.skip, rest)
  | .ident target :: .assign :: rest =>
    (expression rest).map fun (value, rest) => (.assign target value, rest)
  | _ => none

/-- At most `bound` statements up to the end of the tokens. -/
def statements : (bound : Nat) → List Token → Option (List Statement)
  | _, [] => some []
  | 0, _ => none
  | bound + 1, tokens =>
    match statement tokens with
    | some (s, []) => some [s]
    | some (s, .semicolon :: rest) => (statements bound rest).map (s :: ·)
    | _ => none

/-- A send or a receive. -/
def channelOp : Reader ChannelOp
  | .ident channel :: .bang :: rest =>
    (expression rest).map fun (value, rest) => (.send channel value, rest)
  | .ident channel :: .query :: .ident target :: rest => some (.receive channel target, rest)
  | _ => none

/-- What a reader reads, if it leaves no token. -/
def toEnd {α : Type} (reader : Reader α) (tokens : List Token) : Option α :=
  match reader tokens with
  | some (a, []) => some a
  | _ => none

/-- Two channel operations with a bar between them. -/
def pair : Reader (ChannelOp × ChannelOp) := fun tokens =>
  match channelOp tokens with
  | some (first, .bar :: rest) =>
    (channelOp rest).map fun (second, rest) => ((first, second), rest)
  | _ => none

end Reader

/-- Reads a condition. -/
def Expr.parse? (text : String) : Option Expr := do
  Reader.expression.toEnd (← Token.tokenize text)

/-- Reads an action. -/
def Statement.parse? (text : String) : Option (List Statement) := do
  let tokens ← Token.tokenize text
  Reader.statements tokens.length tokens

/-- Reads a one-sided action. -/
def ChannelOp.parse? (text : String) : Option ChannelOp := do
  Reader.channelOp.toEnd (← Token.tokenize text)

/-- Reads the two sides of a rendezvous. -/
def ChannelOp.parsePair? (text : String) : Option (ChannelOp × ChannelOp) := do
  Reader.pair.toEnd (← Token.tokenize text)

end Script

end Interleaving
