/-!
# Parsing Expression Grammars

A grammar that says how a text is read. Of two alternatives the second counts only where
the first fails, a repetition takes all it can and never gives anything back, and an
expression may look ahead without taking anything. So a rule reads a text in one way or not
at all, and what it takes depends on what follows.

Between the parts of a sequence there may be space. It is nothing the grammar mentions; the
sequence itself reads it, and so does a repetition between two rounds, where a last round
that fails gives the space before it back. Inside an atomic rule no space is read.

What has been read is a list of trees, one for each rule that was called. A silent rule
leaves the trees of the rules it calls in its own place, and an atomic rule is a tree
without branches.

Nothing keeps a grammar from going round in circles, by a rule that calls itself before it
has taken anything or by a repetition of nothing. So reading is a recursion that need not
come to an end, and there is no outcome where it does not. One step says how an expression
reads when it is known how others do. It has the more outcomes the more they have, so there
is a least way to read that the step leaves as it is.

## Main definitions

* `Peg.Exp`: Parsing expressions.
* `Peg.Grammar`: A definition for every rule, and the rule for space.
* `Peg.ParseTree`: What a rule has read.
* `Peg.Reading.step`: One step of reading.
* `Peg.Grammar.run`: Reading from the front of a text.
* `Peg.Grammar.parse`: Reading a text by a rule.

## Theorems

* `Peg.Reading.Below.step`: A step has the more outcomes the more its parts have.
-/

namespace Interleaving

namespace Peg

/-- Parsing expressions over the rules `R`. -/
inductive Exp (R : Type) where
  | text (s : String)
  /-- One character of a class. -/
  | char (among : Char → Bool)
  /-- Nothing, at the start of the whole text. -/
  | start
  /-- Nothing, at its end. -/
  | finish
  | rule (r : R)
  /-- The space that is read between two parts. -/
  | space
  /-- Two parts with nothing between them. -/
  | cat (a b : Exp R)
  | choice (a b : Exp R)
  /-- As many times as possible, with nothing in between. -/
  | many (a : Exp R)
  /-- Nothing, where `a` fails. -/
  | not (a : Exp R)

namespace Exp

variable {R : Type}

/-- Two parts with space between them. -/
def seq (a b : Exp R) : Exp R :=
  cat a (cat space b)

/-- As a choice, so where `a` can be taken it is. -/
def opt (a : Exp R) : Exp R :=
  choice a (text "")

/-- As many times as possible, with space in between. -/
def star (a : Exp R) : Exp R :=
  opt (cat a (many (cat space a)))

def plus (a : Exp R) : Exp R :=
  seq a (star a)

/-- The first of some texts that can be taken. -/
def oneOf : List String → Exp R
  | [] => not (text "")
  | [s] => text s
  | s :: others => choice (text s) (oneOf others)

end Exp

/-- What becomes of the trees inside a rule, and of the space. -/
inductive Mode where
  | normal
  /-- The rule leaves no tree of its own. -/
  | silent
  /-- The rule reads no space, and no rule in it leaves a tree. -/
  | atomic
  deriving DecidableEq, Repr

/-- How a rule reads. -/
structure Definition (R : Type) where
  mode : Mode
  body : Exp R

/-- A definition of every rule, and the rule for one piece of space. -/
structure Grammar (R : Type) where
  define : R → Definition R
  whitespace : R

/-- What a rule has read: its text, and the trees of the rules it called. -/
inductive ParseTree (R : Type) where
  | node (rule : R) (text : String) (inner : List (ParseTree R))

namespace ParseTree

variable {R : Type}

def rule : ParseTree R → R
  | node rule _ _ => rule

def text : ParseTree R → String
  | node _ text _ => text

end ParseTree

/-- What comes of reading. -/
inductive Outcome (R : Type) where
  | fails
  /-- The trees of what was taken, and the text that is left. -/
  | takes (trees : List (ParseTree R)) (rest : List Char)

variable {R : Type}

/-- The trees are put in another way, if there are any. -/
def Outcome.map (f : List (ParseTree R) → List Char → List (ParseTree R)) : Outcome R → Outcome R
  | fails => fails
  | takes trees rest => takes (f trees rest) rest

/-- What a rule makes of the trees inside it, when it has read `xs` up to `rest`. -/
def Grammar.wrap (g : Grammar R) (atomic : Bool) (r : R) (xs : List Char)
    (trees : List (ParseTree R)) (rest : List Char) : List (ParseTree R) :=
  if atomic || (g.define r).mode == .silent then trees
  else [.node r (String.ofList (xs.take (xs.length - rest.length))) trees]

/-- A way to read from the front of a text by an expression, inside an atomic rule or not. -/
abbrev Reading (R : Type) :=
  Bool → Exp R → List Char → Option (Outcome R)

namespace Reading

/-- Reads by an expression and leaves to `next` whatever the expression refers to. The text is
    the rest of one of `size` characters. -/
def step (next : Reading R) (g : Grammar R) (size : Nat) : Reading R := fun atomic e xs =>
  match e with
  | .text s =>
    some (if s.toList.isPrefixOf xs then .takes [] (xs.drop s.toList.length) else .fails)
  | .char among => some (if xs.head?.any among then .takes [] xs.tail else .fails)
  | .start => some (if xs.length = size then .takes [] xs else .fails)
  | .finish => some (if xs.isEmpty then .takes [] xs else .fails)
  | .rule r => do
    let outcome ← next (atomic || (g.define r).mode == .atomic) (g.define r).body xs
    return outcome.map (g.wrap atomic r xs)
  | .space =>
    -- Space is read as in an atomic rule, where there is none between two pieces of it.
    if atomic then some (.takes [] xs) else next true (.many (.rule g.whitespace)) xs
  | .cat a b => do
    match ← next atomic a xs with
    | .fails => return .fails
    | .takes trees rest =>
      return (← next atomic b rest).map fun others _ => trees ++ others
  | .choice a b => do
    match ← next atomic a xs with
    | .fails => next atomic b xs
    | .takes trees rest => return .takes trees rest
  | .many a => do
    match ← next atomic a xs with
    | .fails => return .takes [] xs
    | .takes trees rest =>
      return (← next atomic (.many a) rest).map fun others _ => trees ++ others
  | .not a => do
    match ← next atomic a xs with
    | .fails => return .takes [] xs
    | .takes _ _ => return .fails

/-- Where the first has an outcome, the second has the same. -/
def Below (next next' : Reading R) : Prop :=
  ∀ atomic e xs, next atomic e xs = none ∨ next atomic e xs = next' atomic e xs

theorem below_bind {o o' : Option (Outcome R)} {f f' : Outcome R → Option (Outcome R)}
    (ho : o = none ∨ o = o') (hf : ∀ outcome, f outcome = none ∨ f outcome = f' outcome) :
    (o >>= f) = none ∨ (o >>= f) = (o' >>= f') := by
  rcases ho with rfl | rfl
  · exact Or.inl rfl
  · cases o with
    | none => exact Or.inl rfl
    | some outcome => exact hf outcome

/-- The more parts have an outcome, the more expressions do. -/
theorem Below.step {next next' : Reading R} (h : next.Below next') (g : Grammar R)
    (size : Nat) : Below (next.step g size) (next'.step g size) := by
  intro atomic e xs
  unfold Reading.step
  cases e with
  | text s => exact Or.inr rfl
  | char among => exact Or.inr rfl
  | start => exact Or.inr rfl
  | finish => exact Or.inr rfl
  | rule r => exact below_bind (h _ _ xs) fun outcome => Or.inr rfl
  | space =>
      cases atomic with
      | true => exact Or.inr rfl
      | false => exact h true _ xs
  | cat a b =>
      refine below_bind (h atomic a xs) fun outcome => ?_
      cases outcome with
      | fails => exact Or.inr rfl
      | takes trees rest => exact below_bind (h atomic b rest) fun outcome => Or.inr rfl
  | choice a b =>
      refine below_bind (h atomic a xs) fun outcome => ?_
      cases outcome with
      | fails => exact h atomic b xs
      | takes trees rest => exact Or.inr rfl
  | many a =>
      refine below_bind (h atomic a xs) fun outcome => ?_
      cases outcome with
      | fails => exact Or.inr rfl
      | takes trees rest => exact below_bind (h atomic _ rest) fun outcome => Or.inr rfl
  | not a => exact below_bind (h atomic a xs) fun outcome => Or.inr rfl

end Reading

namespace Grammar

section Run

variable (g : Grammar R) (size : Nat)

/-- Reads from the front of the rest of a text of `size` characters. -/
def run : Reading R := fun atomic e xs =>
  run.step g size atomic e xs
partial_fixpoint monotonicity by
  intro next next' h
  have hbelow : Reading.Below next next' := by
    intro atomic e xs
    have hle := h atomic e xs
    generalize next atomic e xs = o at hle ⊢
    generalize next' atomic e xs = o' at hle ⊢
    cases hle with
    | bot => exact Or.inl rfl
    | refl => exact Or.inr rfl
  intro atomic e xs
  rcases hbelow.step g size atomic e xs with hnone | hsame
  · simp only [hnone]
    exact .bot
  · simp only [hsame]
    exact .refl

end Run

/-- Reads a text by a rule, which need not take all of it. -/
def parse (g : Grammar R) (r : R) (text : String) : Option (Outcome R) :=
  g.run text.toList.length false (.rule r) text.toList

end Grammar

end Peg

end Interleaving
