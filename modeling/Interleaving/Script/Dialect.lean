import Interleaving.Peg
import Interleaving.Script.Expr

/-!
# The Grammar of Guards and Actions

The language of guards and actions as a parsing expression grammar, and the expressions,
statements and channel operations that are built from what it reads. This is the form the
language is given in. Its readers in `Script.Parser` go by tokens instead, and know nothing
of alternatives that are tried one after the other.

A keyword is told from a name by looking ahead: behind `true`, `false` and `skip` no letter,
digit or underscore may follow, and a name begins where no keyword does. Of the operators
that compare, those with two characters are tried first.

The trees of one level are an operand, an operator, an operand and so on, and are folded to
the left. The signs in front of an operand are put around it from the last to the first. A
number that is no 64-bit integer is read by the grammar, but nothing can be built from it.

## Main definitions

* `Dialect.Rule`: The rules of the language.
* `Dialect.grammar`: What they read.
* `Dialect.build`: The expression of a tree.
* `Dialect.condition?`, `Dialect.action?`, `Dialect.oneSided?`, `Dialect.sync?`: Conditions,
  actions, one-sided actions and rendezvous, read by the grammar.
-/

namespace Interleaving

namespace Script

/-- The operator that is written so. -/
def BinaryOp.ofSymbol? (symbol : String) : Option BinaryOp :=
  match symbol with
  | "||" => some or
  | "&&" => some and
  | "==" => some equal
  | "!=" => some unequal
  | "<" => some (compare .lt)
  | "<=" => some (compare .le)
  | ">" => some (compare .gt)
  | ">=" => some (compare .ge)
  | "+" => some (arith .add)
  | "-" => some (arith .sub)
  | "*" => some (arith .mul)
  | "/" => some (arith .div)
  | "%" => some (arith .rem)
  | _ => none

namespace Dialect

/-- The rules of the language. -/
inductive Rule where
  | whitespace
  | endOfInput
  | keyword
  | ident
  | int
  | boolean
  | orOp
  | andOp
  | cmpOp
  | addOp
  | mulOp
  | unaryOp
  | expr
  | andExpr
  | cmpExpr
  | sum
  | product
  | unary
  | primary
  | skipStmt
  | assignment
  | statement
  | condition
  | action
  | send
  | receive
  | channel
  | oneSided
  | sync
  deriving DecidableEq, Repr

open Peg

section Rules

open Exp

/-- The characters a word goes on with. -/
def wordChar : Exp Rule :=
  choice (char Char.isAlphanum) (text "_")

/-- One of some words, with nothing behind it that would make it longer. -/
def wholeWord (words : List String) : Exp Rule :=
  seq (oneOf words) (not wordChar)

/-- Operands with operators between them. -/
def chain (operand op : Rule) : Exp Rule :=
  seq (rule operand) (star (seq (rule op) (rule operand)))

/-- Statements with semicolons between them, and possibly one at the end. -/
def statements : Exp Rule :=
  seq (rule .statement) (seq (star (seq (text ";") (rule .statement))) (opt (text ";")))

/-- The whole text, which `e` takes but for the space around it. -/
def whole (e : Exp Rule) : Exp Rule :=
  seq start (seq e (rule .endOfInput))

/-- The definition of each rule. -/
def define : Rule → Definition Rule
  | .whitespace => ⟨.silent, oneOf [" ", "\t", "\r", "\n"]⟩
  | .endOfInput => ⟨.normal, finish⟩
  | .keyword => ⟨.atomic, wholeWord ["true", "false", "skip"]⟩
  | .ident => ⟨.atomic, seq (not (rule .keyword))
      (seq (choice (char Char.isAlpha) (text "_")) (star wordChar))⟩
  | .int => ⟨.atomic, plus (char Char.isDigit)⟩
  | .boolean => ⟨.atomic, wholeWord ["true", "false"]⟩
  | .orOp => ⟨.normal, oneOf ["||"]⟩
  | .andOp => ⟨.normal, oneOf ["&&"]⟩
  | .cmpOp => ⟨.normal, oneOf ["==", "!=", "<=", ">=", "<", ">"]⟩
  | .addOp => ⟨.normal, oneOf ["+", "-"]⟩
  | .mulOp => ⟨.normal, oneOf ["*", "/", "%"]⟩
  | .unaryOp => ⟨.normal, oneOf ["!", "-"]⟩
  | .expr => ⟨.normal, chain .andExpr .orOp⟩
  | .andExpr => ⟨.normal, chain .cmpExpr .andOp⟩
  | .cmpExpr => ⟨.normal, seq (rule .sum) (opt (seq (rule .cmpOp) (rule .sum)))⟩
  | .sum => ⟨.normal, chain .product .addOp⟩
  | .product => ⟨.normal, chain .unary .mulOp⟩
  | .unary => ⟨.normal, seq (star (rule .unaryOp)) (rule .primary)⟩
  | .primary => ⟨.silent, choice (rule .boolean) (choice (rule .int) (choice (rule .ident)
      (seq (text "(") (seq (rule .expr) (text ")")))))⟩
  | .skipStmt => ⟨.atomic, wholeWord ["skip"]⟩
  | .assignment => ⟨.normal, seq (rule .ident) (seq (text ":=") (rule .expr))⟩
  | .statement => ⟨.silent, choice (rule .skipStmt) (rule .assignment)⟩
  | .condition => ⟨.normal, whole (rule .expr)⟩
  | .action => ⟨.normal, whole (opt statements)⟩
  | .send => ⟨.normal, seq (rule .ident) (seq (text "!") (rule .expr))⟩
  | .receive => ⟨.normal, seq (rule .ident) (seq (text "?") (rule .ident))⟩
  | .channel => ⟨.silent, choice (rule .send) (rule .receive)⟩
  | .oneSided => ⟨.normal, whole (rule .channel)⟩
  | .sync => ⟨.normal, whole (seq (rule .channel) (seq (text "|") (rule .channel)))⟩

/-- The language as a grammar. -/
def grammar : Grammar Rule where
  define := define
  whitespace := .whitespace

end Rules

section Building

mutual

/-- The expression of a tree. -/
def build : ParseTree Rule → Option Expr
  | .node rule text inner =>
    match rule with
    | .expr | .andExpr | .cmpExpr | .sum | .product => buildChain inner
    | .unary => buildSigned [] none inner
    | .boolean => some (.literal (.bool (text == "true")))
    | .int => (checked (Text.valueOfDigits text.toList)).map fun n => .literal (.int n)
    | .ident => some (.var text)
    | _ => none

/-- Operands with operators between them, folded to the left. -/
def buildChain : List (ParseTree Rule) → Option Expr
  | [] => none
  | first :: others =>
    match build first with
    | none => none
    | some left => buildChainFrom left others

/-- Operators and operands that follow `left`. -/
def buildChainFrom (left : Expr) : List (ParseTree Rule) → Option Expr
  | [] => some left
  | [_] => none
  | op :: operand :: others =>
    match BinaryOp.ofSymbol? op.text, build operand with
    | some op, some right => buildChainFrom (.binary op left right) others
    | _, _ => none

/-- Signs and an operand, of which `signs` and `operand` have been seen. The signs are put
    around the operand when all have been seen, from the last to the first. -/
def buildSigned (signs : List UnaryOp) (operand : Option Expr) : List (ParseTree Rule) → Option Expr
  | [] => operand.map fun e => signs.foldr .unary e
  | part :: others =>
    if part.rule = .unaryOp then
      buildSigned (signs ++ [if part.text = "!" then .not else .neg]) operand others
    else
      match build part with
      | none => none
      | some e => buildSigned signs (some e) others

end

/-- The statements of an action. -/
def buildStatements : List (ParseTree Rule) → Option (List Statement)
  | [] => some []
  | .node .skipStmt _ _ :: others => (buildStatements others).map (.skip :: ·)
  | .node .assignment _ (target :: value :: _) :: others =>
    match build value with
    | none => none
    | some value => (buildStatements others).map (.assign target.text value :: ·)
  | .node .endOfInput _ _ :: others => buildStatements others
  | _ => none

/-- The channel operation of a tree. -/
def buildOp : ParseTree Rule → Option ChannelOp
  | .node .send _ (channel :: value :: _) => (build value).map (.send channel.text)
  | .node .receive _ (channel :: target :: _) => some (.receive channel.text target.text)
  | _ => none

end Building

/-- The trees inside the rule that reads a text, if it does. -/
def inner? (r : Rule) (text : String) : Option (List (ParseTree Rule)) :=
  match grammar.parse r text with
  | some (.takes (.node _ _ inner :: _) _) => some inner
  | _ => none

/-- Reads a condition. -/
def condition? (text : String) : Option Expr := do
  let tree ← (← inner? .condition text).head?
  build tree

/-- Reads an action. -/
def action? (text : String) : Option (List Statement) := do
  buildStatements (← inner? .action text)

/-- Reads a one-sided action. -/
def oneSided? (text : String) : Option ChannelOp := do
  let tree ← (← inner? .oneSided text).head?
  buildOp tree

/-- Reads a rendezvous. -/
def sync? (text : String) : Option (ChannelOp × ChannelOp) := do
  match ← inner? .sync text with
  | first :: second :: _ => return (← buildOp first, ← buildOp second)
  | _ => none

end Dialect

end Script

end Interleaving
