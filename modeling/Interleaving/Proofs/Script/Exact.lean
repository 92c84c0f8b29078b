import Interleaving.Script.Expr
import Mathlib.Algebra.Group.Int.Defs
import Mathlib.Data.List.Basic

/-!
# Evaluation over Unbounded Integers

What an expression is worth if integers have any size, and what the evaluator makes of it
with integers of 64 bits. The evaluator is exact or fails. When it fails, one operation is
to blame, the first that goes wrong in the order in which operands are evaluated.

To speak of that order, the evaluation here writes down every operation it performs, with
the exact values it performs it on. An operation without a result ends the evaluation. One
whose result is merely too large does not: unbounded integers go on, and only looking back
is it seen that 64 bits would have ended there. So the operations up to the first failure
are those the evaluator performs, and what is written down after it does not matter.

Every operator but `&&` and `||` is one operation on both operands. These two are one
operation for each operand they look at, because the right one is not evaluated before the
left one has been found to be a boolean that does not decide.

## Main definitions

* `ExactValue`: Values whose integers have any size.
* `Operation`: One step of an evaluation, with the values it works on.
* `Operation.result?`: The exact result of an operation.
* `Operation.Overflows`, `Operation.DividesByZero`, `Operation.Mistyped`: What can be wrong
  with an operation, besides a variable that is not bound.
* `Expr.trace`: The operations of an expression in order, and its exact value.

## Theorems

* `Operation.not_fails`, `Operation.FailsWith.unique`: An operation with a result in range
  is fine, and one that is not fine fails in one way.
* `tdiv_not_inRange_iff`: The one quotient of integers in range that is not in range.
* `Operation.answers_arith`: The evaluator's arithmetic, operation by operation.
* `Follows.andThen`: Two evaluations one after the other.
* `eval_exact_or_first_failure`: The evaluator gives the exact value or reports the first
  operation that fails.
-/

namespace Interleaving

/-- An integer that 64 bits can hold. -/
def InRange (n : Int) : Prop :=
  -2 ^ 63 ≤ n ∧ n < 2 ^ 63

theorem checked_eq_none_iff {n : Int} : checked n = none ↔ ¬ InRange n := by
  unfold checked InRange
  rw [Int64.toInt_minValue, Int64.toInt_maxValue]
  split <;> simp <;> omega

theorem inRange_toInt (n : Int64) : InRange n.toInt := by
  have hlow := Int64.minValue_le_toInt n
  have hhigh := Int64.toInt_le n
  rw [Int64.toInt_minValue] at hlow
  rw [Int64.toInt_maxValue] at hhigh
  unfold InRange
  omega

/-- Among quotients of integers in range, one is out of range. -/
theorem tdiv_not_inRange_iff {m n : Int} (hm : InRange m) (hn : n ≠ 0) :
    ¬ InRange (m.tdiv n) ↔ m = -2 ^ 63 ∧ n = -1 := by
  unfold InRange at hm ⊢
  constructor
  · intro h
    -- A divisor of size two or more halves the dividend.
    have hsize : n = 1 ∨ n = -1 := by
      by_contra hne
      have hhalf : (m.tdiv n).natAbs ≤ m.natAbs / 2 := by
        rw [Int.natAbs_tdiv]
        exact Nat.div_le_div_left (by omega) (by decide)
      omega
    rcases hsize with rfl | rfl
    · rw [Int.tdiv_one] at h
      omega
    · rw [Int.tdiv_neg, Int.tdiv_one] at h
      omega
  · rintro ⟨rfl, rfl⟩
    decide

namespace Script

/-- Values whose integers have any size. -/
inductive ExactValue where
  | bool (b : Bool)
  | int (n : Int)
  | str (s : String)
  deriving DecidableEq, Repr

namespace ExactValue

/-- The kind of a value. -/
def type : ExactValue → ValueType
  | bool _ => .bool
  | int _ => .int
  | str _ => .string

/-- The value is no integer, or one that 64 bits can hold. -/
def InRange : ExactValue → Prop
  | int n => Interleaving.InRange n
  | _ => True

end ExactValue

/-- A value as one among those whose integers have any size. -/
def toExact : Value → ExactValue
  | .bool b => .bool b
  | .int n => .int n.toInt
  | .str s => .str s

theorem toExact_inj {v w : Value} : toExact v = toExact w ↔ v = w := by
  cases v <;> cases w <;> simp [toExact, Int64.toInt_inj]

theorem inRange_toExact (v : Value) : (toExact v).InRange := by
  cases v with
  | int n => exact inRange_toInt n
  | bool b => trivial
  | str s => trivial

/-- Whether two integers compare as asked. -/
def Comparison.overInts : Comparison → Int → Int → Bool
  | lt, m, n => m < n
  | le, m, n => m ≤ n
  | gt, m, n => m > n
  | ge, m, n => m ≥ n

/-- The result of an operation of arithmetic. The quotient is cut off towards zero, and the
    remainder has the sign of the dividend. There is none of either by zero. -/
def Arithmetic.overInts? : Arithmetic → Int → Int → Option Int
  | add, m, n => some (m + n)
  | sub, m, n => some (m - n)
  | mul, m, n => some (m * n)
  | div, m, n => if n = 0 then none else some (m.tdiv n)
  | rem, m, n => if n = 0 then none else some (m.tmod n)

/-- One step of an evaluation. -/
inductive Operation where
  /-- Looks up a variable, and finds a value or none. -/
  | look (name : String) (found : Option Value)
  /-- Applies an operator to its operand. -/
  | unary (op : UnaryOp) (operand : ExactValue)
  /-- Looks at one operand of a logical operator. -/
  | test (op : BinaryOp) (operand : ExactValue)
  /-- Applies an operator to both of its operands. -/
  | binary (op : BinaryOp) (left right : ExactValue)

namespace Operation

/-- The values an operation works on, from left to right. -/
def operands : Operation → List ExactValue
  | look _ _ => []
  | unary _ a => [a]
  | test _ a => [a]
  | binary _ a b => [a, b]

/-- How messages name an operation. -/
def symbol : Operation → String
  | look name _ => name
  | unary .not _ => "!"
  | unary .neg _ => "-"
  | test op _ => op.symbol
  | binary op _ _ => op.symbol

/-- The type that all operands have to have, if there is one. -/
def needs? : Operation → Option ValueType
  | look _ _ => none
  | unary .not _ => some .bool
  | unary .neg _ => some .int
  | test _ _ => some .bool
  | binary (.compare _) _ _ => some .int
  | binary (.arith _) _ _ => some .int
  | binary _ _ _ => none

/-- The exact result of an operation, if it has one. Any two values can be compared for
    equality. -/
def result? : Operation → Option ExactValue
  | look _ found => found.map toExact
  | unary .not (.bool b) => some (.bool !b)
  | unary .neg (.int n) => some (.int (-n))
  | test _ (.bool b) => some (.bool b)
  | binary .equal a b => some (.bool (a = b))
  | binary .unequal a b => some (.bool (a ≠ b))
  | binary (.compare c) (.int m) (.int n) => some (.bool (c.overInts m n))
  | binary (.arith o) (.int m) (.int n) => (o.overInts? m n).map .int
  | _ => none

/-- The remainder of the least integer by minus one. -/
def leastByMinusOne : Operation :=
  .binary (.arith .rem) (.int (-2 ^ 63)) (.int (-1))

/-- The operands are integers and the exact result is out of range. The remainder of the
    least integer by minus one counts as well, though it is zero. -/
def Overflows (op : Operation) : Prop :=
  ((∀ a ∈ op.operands, a.type = .int) ∧ ∃ n, op.result? = some (.int n) ∧ ¬ InRange n) ∨
    op = leastByMinusOne

/-- A quotient or a remainder of integers by zero. -/
def DividesByZero (op : Operation) : Prop :=
  ∃ m, op = .binary (.arith .div) (.int m) (.int 0) ∨ op = .binary (.arith .rem) (.int m) (.int 0)

/-- An operand has not the type it has to have. If both operands have not, the left one is
    meant. -/
def Mistyped (op : Operation) (operator : String) (expected found : ValueType) : Prop :=
  operator = op.symbol ∧ op.needs? = some expected ∧
    (op.operands.find? (·.type ≠ expected)).map (·.type) = some found

/-- The operation cannot be performed with 64 bits. -/
def Fails (op : Operation) : Prop :=
  op.Overflows ∨ op.DividesByZero ∨
    (∃ operator expected found, op.Mistyped operator expected found) ∨ ∃ name, op = .look name none

/-- An error says what is wrong with an operation. -/
inductive FailsWith (op : Operation) : EvalError → Prop where
  | overflow (h : op.Overflows) : FailsWith op .integerOverflow
  | division (h : op.DividesByZero) : FailsWith op .divisionByZero
  | type {operator : String} {expected found : ValueType}
      (h : op.Mistyped operator expected found) :
      FailsWith op (.typeMismatch operator expected found)
  | unbound {name : String} (h : op = .look name none) : FailsWith op (.unboundVariable name)

variable {op : Operation}

theorem FailsWith.fails {err : EvalError} (h : op.FailsWith err) : op.Fails := by
  cases h with
  | overflow h => exact Or.inl h
  | division h => exact Or.inr (Or.inl h)
  | type h => exact Or.inr (Or.inr (Or.inl ⟨_, _, _, h⟩))
  | unbound h => exact Or.inr (Or.inr (Or.inr ⟨_, h⟩))

section Causes

/-- Division by zero has no result. -/
theorem DividesByZero.result?_eq_none (h : op.DividesByZero) : op.result? = none := by
  rcases h with ⟨m, rfl | rfl⟩ <;> rfl

/-- An operation has a result only on values of the type it needs. -/
theorem type_eq_of_result? {a r : ExactValue} {expected : ValueType}
    (hresult : op.result? = some r) (hneeds : op.needs? = some expected) (ha : a ∈ op.operands) :
    a.type = expected := by
  unfold result? at hresult
  split at hresult
  · cases hneeds
  · cases hneeds
    rw [List.mem_singleton.mp ha]
    rfl
  · cases hneeds
    rw [List.mem_singleton.mp ha]
    rfl
  · cases hneeds
    rw [List.mem_singleton.mp ha]
    rfl
  · cases hneeds
  · cases hneeds
  · cases hneeds
    rcases List.mem_pair.mp ha with rfl | rfl <;> rfl
  · cases hneeds
    rcases List.mem_pair.mp ha with rfl | rfl <;> rfl
  · cases hresult

theorem Mistyped.result?_eq_none {operator : String} {expected found : ValueType}
    (h : op.Mistyped operator expected found) : op.result? = none := by
  rcases h with ⟨-, hneeds, hfind⟩
  rcases Option.map_eq_some_iff.mp hfind with ⟨a, hfind, -⟩
  have hwrong := List.find?_some hfind
  have hmem : a ∈ op.operands := List.mem_of_find?_eq_some hfind
  cases hresult : op.result? with
  | none => rfl
  | some r => exact absurd (type_eq_of_result? hresult hneeds hmem) (of_decide_eq_true hwrong)

/-- An operation with a result in range can be performed, with the one exception. -/
theorem not_fails {a : ExactValue} (hresult : op.result? = some a) (hrange : a.InRange)
    (hne : op ≠ leastByMinusOne) : ¬ op.Fails := by
  intro h
  rcases h with (⟨-, n, hn, hout⟩ | heq) | hzero | ⟨operator, expected, found, htype⟩ | ⟨name, rfl⟩
  · rw [hn] at hresult
    cases hresult
    exact hout hrange
  · exact hne heq
  · rw [hzero.result?_eq_none] at hresult
    cases hresult
  · rw [htype.result?_eq_none] at hresult
    cases hresult
  · cases hresult

theorem Overflows.result?_ne_none (h : op.Overflows) : op.result? ≠ none := by
  rcases h with ⟨-, n, hn, -⟩ | rfl
  · rw [hn]
    exact Option.some_ne_none _
  · decide

theorem DividesByZero.not_mistyped (h : op.DividesByZero) {operator : String}
    {expected found : ValueType} : ¬ op.Mistyped operator expected found := by
  intro htype
  rcases htype with ⟨-, hneeds, hfind⟩
  rcases h with ⟨m, rfl | rfl⟩ <;> cases hneeds <;> cases hfind

theorem DividesByZero.ne_look (h : op.DividesByZero) (name : String) : op ≠ .look name none := by
  rcases h with ⟨m, rfl | rfl⟩ <;> exact Operation.noConfusion

/-- An operation fails in one way. -/
theorem FailsWith.unique {err err' : EvalError} (h : op.FailsWith err) (h' : op.FailsWith err') :
    err = err' := by
  -- What overflows has a result and the others have none. Of these, a division by zero has
  -- integers as operands and a look-up has no operands, so neither is mistyped.
  cases h with
  | overflow h =>
      cases h' with
      | overflow h' => rfl
      | division h' => exact absurd h'.result?_eq_none h.result?_ne_none
      | type h' => exact absurd h'.result?_eq_none h.result?_ne_none
      | unbound h' => exact absurd (h' ▸ rfl) h.result?_ne_none
  | division h =>
      cases h' with
      | overflow h' => exact absurd h.result?_eq_none h'.result?_ne_none
      | division h' => rfl
      | type h' => exact absurd h' h.not_mistyped
      | unbound h' => exact absurd h' (h.ne_look _)
  | type h =>
      cases h' with
      | overflow h' => exact absurd h.result?_eq_none h'.result?_ne_none
      | division h' => exact absurd h h'.not_mistyped
      | type h' =>
          rcases h with ⟨rfl, hneeds, hfind⟩
          rcases h' with ⟨rfl, hneeds', hfind'⟩
          cases hneeds.symm.trans hneeds'
          cases hfind.symm.trans hfind'
          rfl
      | unbound h' =>
          subst h'
          cases h.2.1
  | unbound h =>
      cases h' with
      | overflow h' => exact absurd (h ▸ rfl) h'.result?_ne_none
      | division h' => exact absurd h (h'.ne_look _)
      | type h' =>
          subst h
          cases h'.2.1
      | unbound h' =>
          cases h.symm.trans h'
          rfl

/-- The error that an operation fails with tells what is wrong with it. -/
theorem FailsWith.cause_iff {err : EvalError} (h : op.FailsWith err) :
    (err = .integerOverflow ↔ op.Overflows) ∧ (err = .divisionByZero ↔ op.DividesByZero) ∧
      (∀ operator expected found,
        err = .typeMismatch operator expected found ↔ op.Mistyped operator expected found) ∧
      ∀ name, err = .unboundVariable name ↔ op = .look name none := by
  refine ⟨⟨?_, fun hcause => h.unique (.overflow hcause)⟩,
    ⟨?_, fun hcause => h.unique (.division hcause)⟩,
    fun operator expected found => ⟨?_, fun hcause => h.unique (.type hcause)⟩,
    fun name => ⟨?_, fun hcause => h.unique (.unbound hcause)⟩⟩
  all_goals
    rintro rfl
    cases h
    assumption

end Causes

section Answers

/-- An answer of the evaluator is what an operation comes to: its exact result, or the error
    it fails with. -/
inductive Answers (op : Operation) : Except EvalError Value → Prop where
  | value {v : Value} (h : op.result? = some (toExact v)) (hne : op ≠ leastByMinusOne) :
      Answers op (.ok v)
  | failure {err : EvalError} (h : op.FailsWith err) : Answers op (.error err)

theorem answers_look (env : Environment) (name : String) :
    Answers (.look name (env.get? name)) ((Expr.var name).eval env) := by
  rw [Expr.eval]
  cases env.get? name with
  | none => exact .failure (.unbound rfl)
  | some v => exact .value rfl Operation.noConfusion

theorem answers_not (v : Value) : Answers (.unary .not (toExact v))
    (do let b ← expectBool "!" v; return .bool !b) := by
  cases v with
  | bool b => exact .value rfl Operation.noConfusion
  | int n => exact .failure (.type ⟨rfl, rfl, rfl⟩)
  | str s => exact .failure (.type ⟨rfl, rfl, rfl⟩)

theorem answers_test (op : BinaryOp) (v : Value) : Answers (.test op (toExact v))
    (do let b ← expectBool op.symbol v; return .bool b) := by
  cases v with
  | bool b => exact .value rfl Operation.noConfusion
  | int n => exact .failure (.type ⟨rfl, rfl, rfl⟩)
  | str s => exact .failure (.type ⟨rfl, rfl, rfl⟩)

/-- An operation of integers whose exact result is made a value. -/
theorem answers_exactly {n : Int} (hint : ∀ a ∈ op.operands, a.type = .int)
    (hresult : op.result? = some (.int n)) (hne : op ≠ leastByMinusOne) :
    Answers op (exactly n) := by
  unfold exactly
  cases hchecked : checked n with
  | none => exact .failure (.overflow (Or.inl ⟨hint, n, hresult, checked_eq_none_iff.mp hchecked⟩))
  | some k =>
      refine .value ?_ hne
      rw [hresult, ← checked_eq_some_iff.mp hchecked]
      rfl

theorem answers_neg (v : Value) : Answers (.unary .neg (toExact v))
    (do let n ← expectInt "-" v; exactly (-n.toInt)) := by
  cases v with
  | bool b => exact .failure (.type ⟨rfl, rfl, rfl⟩)
  | int n =>
      refine answers_exactly ?_ rfl Operation.noConfusion
      intro a ha
      rw [List.mem_singleton.mp ha]
      rfl
  | str s => exact .failure (.type ⟨rfl, rfl, rfl⟩)

theorem answers_equal (v w : Value) : Answers (.binary .equal (toExact v) (toExact w))
    (.ok (.bool (v = w))) := by
  refine .value ?_ (by simp [leastByMinusOne])
  simp only [result?, toExact_inj]
  rfl

theorem answers_unequal (v w : Value) : Answers (.binary .unequal (toExact v) (toExact w))
    (.ok (.bool (v ≠ w))) := by
  refine .value ?_ (by simp [leastByMinusOne])
  simp only [result?, ne_eq, toExact_inj]
  rfl

/-- Two integers are asked for, the left one first. -/
theorem answers_ints {op : BinaryOp} {v w : Value} {f : Int64 × Int64 → Except EvalError Value}
    (hneeds : (Operation.binary op (toExact v) (toExact w)).needs? = some .int)
    (h : ∀ m n, Answers (.binary op (.int m.toInt) (.int n.toInt)) (f (m, n))) :
    Answers (.binary op (toExact v) (toExact w)) (expectInts op.symbol v w >>= f) := by
  cases v with
  | bool b => exact .failure (.type ⟨rfl, hneeds, rfl⟩)
  | str s => exact .failure (.type ⟨rfl, hneeds, rfl⟩)
  | int m =>
      cases w with
      | bool b => exact .failure (.type ⟨rfl, hneeds, rfl⟩)
      | str s => exact .failure (.type ⟨rfl, hneeds, rfl⟩)
      | int n => exact h m n

theorem answers_compare (c : Comparison) (v w : Value) :
    Answers (.binary (.compare c) (toExact v) (toExact w))
      (do let pair ← expectInts (BinaryOp.compare c).symbol v w
          return .bool (c.decides pair.1.toInt pair.2.toInt)) := by
  refine answers_ints rfl ?_
  intro m n
  refine .value ?_ (by simp [leastByMinusOne])
  cases c <;> rfl

theorem answers_arith (o : Arithmetic) (v w : Value) :
    Answers (.binary (.arith o) (toExact v) (toExact w))
      (do let pair ← expectInts (BinaryOp.arith o).symbol v w
          o.apply pair.1.toInt pair.2.toInt) := by
  refine answers_ints rfl ?_
  intro m n
  have hint : ∀ a ∈ (Operation.binary (.arith o) (.int m.toInt) (.int n.toInt)).operands,
      a.type = .int := by
    intro a ha
    rcases List.mem_pair.mp ha with rfl | rfl <;> rfl
  cases o with
  | add => exact answers_exactly hint rfl (by simp [leastByMinusOne])
  | sub => exact answers_exactly hint rfl (by simp [leastByMinusOne])
  | mul => exact answers_exactly hint rfl (by simp [leastByMinusOne])
  | div =>
      show Answers _ (Arithmetic.div.apply m.toInt n.toInt)
      unfold Arithmetic.apply
      by_cases hzero : n.toInt = 0
      · simp only [hzero, if_true]
        exact .failure (.division ⟨_, Or.inl rfl⟩)
      · simp only [hzero, if_false]
        exact answers_exactly hint (by simp [result?, Arithmetic.overInts?, hzero])
          (by simp [leastByMinusOne])
  | rem =>
      show Answers _ (Arithmetic.rem.apply m.toInt n.toInt)
      unfold Arithmetic.apply
      by_cases hzero : n.toInt = 0
      · simp only [hzero, if_true]
        exact .failure (.division ⟨_, Or.inr rfl⟩)
      · have hquotient := tdiv_not_inRange_iff (inRange_toInt m) hzero
        rw [← checked_eq_none_iff, ← Option.isNone_iff_eq_none] at hquotient
        simp only [hzero, if_false]
        -- The evaluator asks whether the quotient is in range before it takes the remainder.
        split
        · next hnone =>
          rcases hquotient.mp hnone with ⟨hm, hn⟩
          refine .failure (.overflow (Or.inr ?_))
          rw [hm, hn]
          rfl
        · next hsome =>
          refine answers_exactly hint (by simp [result?, Arithmetic.overInts?, hzero]) ?_
          intro heq
          refine hsome (hquotient.mpr ?_)
          simpa [leastByMinusOne] using heq

end Answers

end Operation

/-- What an evaluation does: its operations in order, and the value it ends in unless an
    operation has no result. -/
structure Trace where
  operations : List Operation
  value? : Option ExactValue

namespace Trace

/-- A value that is there without an operation. -/
def done (a : ExactValue) : Trace :=
  ⟨[], some a⟩

/-- One operation. -/
def perform (op : Operation) : Trace :=
  ⟨[op], op.result?⟩

/-- One evaluation after another, which depends on the value of the first. -/
def andThen (t : Trace) (next : ExactValue → Trace) : Trace :=
  match t.value? with
  | none => t
  | some a => ⟨t.operations ++ (next a).operations, (next a).value?⟩

end Trace

/-- The boolean at which a logical operator looks no further. The other operators always
    look at both operands. -/
def BinaryOp.deciding? : BinaryOp → Option Bool
  | or => some true
  | and => some false
  | _ => none

/-- The evaluation of an expression over unbounded integers. -/
def Expr.trace (env : Environment) : Expr → Trace
  | literal value => .done (toExact value)
  | var name => .perform (.look name (env.get? name))
  | unary op operand => (trace env operand).andThen fun a => .perform (.unary op a)
  | binary op left right => (trace env left).andThen fun a =>
    match op.deciding? with
    | none => (trace env right).andThen fun b => .perform (.binary op a b)
    | some deciding => (Trace.perform (.test op a)).andThen fun a =>
      if a = .bool deciding then .done a
      else (trace env right).andThen fun b => .perform (.test op b)

/-- An operation is the first one that fails. -/
def IsFirstFailure (operations : List Operation) (op : Operation) : Prop :=
  ∃ before after, operations = before ++ op :: after ∧ op.Fails ∧ ∀ o ∈ before, ¬ o.Fails

/-- An answer of the evaluator is what an evaluation comes to: its exact value if no operation
    fails, or the error of the first one that does. -/
inductive Follows (t : Trace) : Except EvalError Value → Prop where
  | value {v : Value} (hvalue : t.value? = some (toExact v)) (h : ∀ op ∈ t.operations, ¬ op.Fails) :
      Follows t (.ok v)
  | failure {err : EvalError} {op : Operation} (hfirst : IsFirstFailure t.operations op)
      (h : op.FailsWith err) : Follows t (.error err)

namespace Follows

theorem done (v : Value) : Follows (.done (toExact v)) (.ok v) :=
  .value rfl fun _ hop => absurd hop List.not_mem_nil

theorem perform {op : Operation} {x : Except EvalError Value} (h : op.Answers x) :
    Follows (.perform op) x := by
  cases h with
  | value hresult hne =>
      refine .value hresult ?_
      intro o ho
      rw [List.mem_singleton.mp ho]
      exact Operation.not_fails hresult (inRange_toExact _) hne
  | failure hfails =>
      exact .failure ⟨[], [], rfl, hfails.fails, fun _ ho => absurd ho List.not_mem_nil⟩ hfails

/-- What comes after a failure makes no difference, and what comes before it does not fail. -/
theorem andThen {t : Trace} {next : ExactValue → Trace} {x : Except EvalError Value}
    {f : Value → Except EvalError Value} (h : Follows t x)
    (hnext : ∀ v, x = .ok v → Follows (next (toExact v)) (f v)) :
    Follows (t.andThen next) (x >>= f) := by
  cases h with
  | failure hfirst hfails =>
      rcases hfirst with ⟨before, after, hops, hop, hbefore⟩
      unfold Trace.andThen
      split
      · exact .failure ⟨before, after, hops, hop, hbefore⟩ hfails
      · next a _ =>
        refine .failure ⟨before, after ++ (next a).operations, ?_, hop, hbefore⟩ hfails
        rw [hops, List.append_assoc, List.cons_append]
  | @value v hvalue hnone =>
      have hthen : t.andThen next =
          ⟨t.operations ++ (next (toExact v)).operations, (next (toExact v)).value?⟩ := by
        rw [Trace.andThen, hvalue]
      show Follows (t.andThen next) (f v)
      rw [hthen]
      have hrest := hnext v rfl
      generalize f v = y at hrest ⊢
      cases hrest with
      | value hvalue' hnone' =>
          refine .value hvalue' ?_
          intro op hop
          rcases List.mem_append.mp hop with hop | hop
          · exact hnone op hop
          · exact hnone' op hop
      | failure hfirst hfails =>
          rcases hfirst with ⟨before, after, hops, hop, hbefore⟩
          refine .failure ⟨t.operations ++ before, after, ?_, hop, ?_⟩ hfails
          · rw [hops, List.append_assoc]
          · intro o ho
            rcases List.mem_append.mp ho with ho | ho
            · exact hnone o ho
            · exact hbefore o ho

/-- An operand of a logical operator is looked at before anything else is done. -/
theorem test {op : BinaryOp} {v : Value} {next : ExactValue → Trace}
    {f : Bool → Except EvalError Value} (hnext : ∀ b, Follows (next (.bool b)) (f b)) :
    Follows ((Trace.perform (.test op (toExact v))).andThen next)
      (expectBool op.symbol v >>= f) := by
  have hperform : Follows (.perform (.test op (toExact v)))
      (do let b ← expectBool op.symbol v; return .bool b) := .perform (Operation.answers_test op v)
  cases v with
  | bool b =>
      refine hperform.andThen (f := fun _ => f b) ?_
      rintro w ⟨⟩
      exact hnext b
  | int n => exact hperform.andThen (f := .ok) nofun
  | str s => exact hperform.andThen (f := .ok) nofun

end Follows

/-- The evaluator does what the evaluation over unbounded integers says. -/
theorem follows_eval (env : Environment) (e : Expr) : Follows (e.trace env) (e.eval env) := by
  induction e with
  | literal value => exact .done value
  | var name => exact .perform (Operation.answers_look env name)
  | unary op operand ih =>
      cases op with
      | not => exact ih.andThen fun v _ => .perform (Operation.answers_not v)
      | neg => exact ih.andThen fun v _ => .perform (Operation.answers_neg v)
  | binary op left right ihleft ihright =>
      cases op with
      | or =>
          refine ihleft.andThen fun v _ => Follows.test fun b => ?_
          cases b with
          | true => exact .done (.bool true)
          | false => exact ihright.andThen fun w _ => .perform (Operation.answers_test .or w)
      | and =>
          refine ihleft.andThen fun v _ => Follows.test fun b => ?_
          cases b with
          | true => exact ihright.andThen fun w _ => .perform (Operation.answers_test .and w)
          | false => exact .done (.bool false)
      | equal =>
          exact ihleft.andThen fun v _ => ihright.andThen fun w _ =>
            .perform (Operation.answers_equal v w)
      | unequal =>
          exact ihleft.andThen fun v _ => ihright.andThen fun w _ =>
            .perform (Operation.answers_unequal v w)
      | compare c =>
          exact ihleft.andThen fun v _ => ihright.andThen fun w _ =>
            .perform (Operation.answers_compare c v w)
      | arith o =>
          exact ihleft.andThen fun v _ => ihright.andThen fun w _ =>
            .perform (Operation.answers_arith o v w)

/-- The evaluator gives a value exactly if no operation fails, and then the exact value, which
    is in range. Otherwise it reports the first operation that fails, and its error tells what
    is wrong with that operation. -/
theorem eval_exact_or_first_failure (env : Environment) (e : Expr) :
    ((∃ v, e.eval env = .ok v) ↔ ∀ op ∈ (e.trace env).operations, ¬ op.Fails) ∧
    (∀ v, e.eval env = .ok v → (e.trace env).value? = some (toExact v) ∧ (toExact v).InRange) ∧
    ∀ err, e.eval env = .error err → ∃ op, IsFirstFailure (e.trace env).operations op ∧
      (err = .integerOverflow ↔ op.Overflows) ∧ (err = .divisionByZero ↔ op.DividesByZero) ∧
      (∀ operator expected found,
        err = .typeMismatch operator expected found ↔ op.Mistyped operator expected found) ∧
      ∀ name, err = .unboundVariable name ↔ op = .look name none := by
  have h := follows_eval env e
  cases heval : e.eval env with
  | ok v =>
      rw [heval] at h
      cases h with
      | value hvalue hnone =>
          refine ⟨⟨fun _ => hnone, fun _ => ⟨v, rfl⟩⟩, ?_, ?_⟩
          · rintro w ⟨⟩
            exact ⟨hvalue, inRange_toExact v⟩
          · rintro err ⟨⟩
  | error err =>
      rw [heval] at h
      cases h with
      | @failure _ op hfirst hfails =>
          refine ⟨⟨?_, ?_⟩, ?_, ?_⟩
          · rintro ⟨v, ⟨⟩⟩
          · intro hnone
            rcases hfirst with ⟨before, after, hops, hop, -⟩
            exact absurd hop (hnone op (hops ▸ List.mem_append_right _ List.mem_cons_self))
          · rintro v ⟨⟩
          · rintro err' ⟨⟩
            exact ⟨op, hfirst, hfails.cause_iff⟩

end Script

end Interleaving
