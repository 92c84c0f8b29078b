import Interleaving.Proofs.Script.Spelling
import Interleaving.Proofs.Script.Statements
import Mathlib.Data.Set.Subsingleton

/-!
# The Language of Scripts

The language as a grammar over characters, with no tokens and no order of reading. Space
may stand in front of every word and sign, and at the end of a text. From loosest to
tightest bind `||`, `&&`, one comparison, sums, products, and the signs in front of an
operand. A chain of operators grows at its right end, so its tree groups to the left. A
comparison is between two sums, so it does not chain. Parentheses leave no trace.

A grammar like this could have two derivations for one text, or derive texts that a
reader from left to right, which takes the longest token and never goes back, gives up
on. It does neither. Each of the four readers accepts exactly the texts of its part of
the language, and gives the one tree they have.

Between the two stand the tokens. A text is derivable if some sequence of tokens is
that spells it, which is shown rule by rule, in both directions; and of the sequences
that spell it the derivable one is the one that is found.

## Main definitions

* `Writes`: The texts of expressions.
* `WritesAction`, `WritesOp`, `WritesPair`: The texts of actions, of channel operations and
  of two of these together.
* `Recognizes`: A reader that accepts exactly what is written so.

## Theorems

* `Writes.exists_derives`, `Grammar.Derives.written`: Expressions as texts and as tokens.
* `recognizes_of_derives`: From tokens to texts, for every kind of text.
* `recognizes_conditions`, `recognizes_actions`, `recognizes_operations`, `recognizes_pairs`:
  The four readers recognize the language.
-/

namespace Interleaving

namespace Script

open Grammar

/-- The operators of a chain. -/
def Grammar.Level.operators : Level → List BinaryOp
  | disjunction => [.or]
  | conjunction => [.and]
  | sum => [.arith .add, .arith .sub]
  | product => [.arith .mul, .arith .div, .arith .rem]

/-- The operators that compare. -/
def comparisons : List BinaryOp :=
  [.equal, .unequal, .compare .lt, .compare .le, .compare .gt, .compare .ge]

/-- The texts of a part of an expression, with its tree. A chain grows at its right end,
    so there is no rule for what follows the beginning of one. -/
inductive Writes : Part → List Char → Expr → Prop where
  | operand {level : Level} {xs : List Char} {e : Expr} (h : Writes level.operand xs e) :
      Writes (.chained level) xs e
  | chain {level : Level} {op : BinaryOp} {xs b ys : List Char} {left right : Expr}
      (hop : op ∈ level.operators) (hleft : Writes (.chained level) xs left) (hb : Blank b)
      (hright : Writes level.operand ys right) :
      Writes (.chained level) (xs ++ (b ++ (op.symbol.toList ++ ys))) (.binary op left right)
  | uncompared {xs : List Char} {e : Expr} (h : Writes (.chained .sum) xs e) :
      Writes .comparison xs e
  | compared {op : BinaryOp} {xs b ys : List Char} {left right : Expr} (hop : op ∈ comparisons)
      (hleft : Writes (.chained .sum) xs left) (hb : Blank b)
      (hright : Writes (.chained .sum) ys right) :
      Writes .comparison (xs ++ (b ++ (op.symbol.toList ++ ys))) (.binary op left right)
  | not {b xs : List Char} {e : Expr} (hb : Blank b) (h : Writes .signed xs e) :
      Writes .signed (b ++ ("!".toList ++ xs)) (.unary .not e)
  | neg {b xs : List Char} {e : Expr} (hb : Blank b) (h : Writes .signed xs e) :
      Writes .signed (b ++ ("-".toList ++ xs)) (.unary .neg e)
  | unsigned {xs : List Char} {e : Expr} (h : Writes .primary xs e) : Writes .signed xs e
  | isTrue {b : List Char} (hb : Blank b) :
      Writes .primary (b ++ "true".toList) (.literal (.bool true))
  | isFalse {b : List Char} (hb : Blank b) :
      Writes .primary (b ++ "false".toList) (.literal (.bool false))
  | number {b digits : List Char} {n : Int64} (hb : Blank b) (h : IsNumeral digits n) :
      Writes .primary (b ++ digits) (.literal (.int n))
  | var {b name : List Char} (hb : Blank b) (h : IsName name) :
      Writes .primary (b ++ name) (.var (String.ofList name))
  | parens {b xs b' : List Char} {e : Expr} (hb : Blank b)
      (h : Writes (.chained .disjunction) xs e) (hb' : Blank b') :
      Writes .primary (b ++ ("(".toList ++ (xs ++ (b' ++ ")".toList)))) e

/-- The texts of a channel operation. -/
inductive WritesOp : List Char → ChannelOp → Prop where
  | send {b name b' xs : List Char} {value : Expr} (hb : Blank b) (hname : IsName name)
      (hb' : Blank b') (hvalue : Writes (.chained .disjunction) xs value) :
      WritesOp (b ++ (name ++ (b' ++ ("!".toList ++ xs)))) (.send (String.ofList name) value)
  | receive {b name b' b'' target : List Char} (hb : Blank b) (hname : IsName name)
      (hb' : Blank b') (hb'' : Blank b'') (htarget : IsName target) :
      WritesOp (b ++ (name ++ (b' ++ ("?".toList ++ (b'' ++ target)))))
        (.receive (String.ofList name) (String.ofList target))

/-- The texts of two channel operations that are taken together. -/
inductive WritesPair : List Char → ChannelOp × ChannelOp → Prop where
  | mk {xs b ys : List Char} {first second : ChannelOp} (hfirst : WritesOp xs first)
      (hb : Blank b) (hsecond : WritesOp ys second) :
      WritesPair (xs ++ (b ++ ("|".toList ++ ys))) (first, second)

/-- The texts of one statement. -/
inductive WritesStatement : List Char → Statement → Prop where
  | skip {b : List Char} (hb : Blank b) : WritesStatement (b ++ "skip".toList) .skip
  | assign {b name b' xs : List Char} {value : Expr} (hb : Blank b) (hname : IsName name)
      (hb' : Blank b') (hvalue : Writes (.chained .disjunction) xs value) :
      WritesStatement (b ++ (name ++ (b' ++ (":=".toList ++ xs))))
        (.assign (String.ofList name) value)

/-- The texts of statements with semicolons between them. -/
inductive WritesStatements : List Char → List Statement → Prop where
  | one {xs : List Char} {s : Statement} (h : WritesStatement xs s) : WritesStatements xs [s]
  | cons {xs b ys : List Char} {s : Statement} {ss : List Statement} (h : WritesStatement xs s)
      (hb : Blank b) (hrest : WritesStatements ys ss) :
      WritesStatements (xs ++ (b ++ (";".toList ++ ys))) (s :: ss)

/-- The texts of an action. -/
inductive WritesAction : List Char → List Statement → Prop where
  | empty : WritesAction [] []
  | plain {xs : List Char} {ss : List Statement} (h : WritesStatements xs ss) :
      WritesAction xs ss
  | closed {xs b : List Char} {ss : List Statement} (h : WritesStatements xs ss)
      (hb : Blank b) : WritesAction (xs ++ (b ++ ";".toList)) ss

/-- The whole text is written so, up to space at its end. -/
def IsText {α : Type} (writes : List Char → α → Prop) (text : String) (a : α) : Prop :=
  ∃ xs b, text.toList = xs ++ b ∧ Blank b ∧ writes xs a

/-- A reader accepts exactly the texts that are written so, with what they stand for, and
    they stand for one thing. -/
def Recognizes {α : Type} (parse? : String → Option α) (writes : List Char → α → Prop) : Prop :=
  ∀ text, (∀ a, parse? text = some a ↔ IsText writes text a) ∧
    {a | IsText writes text a}.Subsingleton

section Operators

variable {t : Token} {op : BinaryOp} {l : List Char}

theorem exists_operator? {level : Level} (h : op ∈ level.operators) :
    ∃ t, level.operator? t = some op ∧ t.Lexeme op.symbol.toList := by
  cases level with
  | disjunction =>
      rw [Level.operators, List.mem_singleton] at h
      subst h
      exact ⟨.orOr, rfl, rfl⟩
  | conjunction =>
      rw [Level.operators, List.mem_singleton] at h
      subst h
      exact ⟨.andAnd, rfl, rfl⟩
  | sum =>
      simp only [Level.operators, List.mem_cons, List.not_mem_nil, or_false] at h
      rcases h with rfl | rfl
      · exact ⟨.plus, rfl, rfl⟩
      · exact ⟨.minus, rfl, rfl⟩
  | product =>
      simp only [Level.operators, List.mem_cons, List.not_mem_nil, or_false] at h
      rcases h with rfl | rfl | rfl
      · exact ⟨.star, rfl, rfl⟩
      · exact ⟨.slash, rfl, rfl⟩
      · exact ⟨.percent, rfl, rfl⟩

theorem exists_comparisonOp? (h : op ∈ comparisons) :
    ∃ t, Reader.comparisonOp? t = some op ∧ t.Lexeme op.symbol.toList := by
  simp only [comparisons, List.mem_cons, List.not_mem_nil, or_false] at h
  rcases h with rfl | rfl | rfl | rfl | rfl | rfl
  · exact ⟨.eqEq, rfl, rfl⟩
  · exact ⟨.bangEq, rfl, rfl⟩
  · exact ⟨.less, rfl, rfl⟩
  · exact ⟨.lessEq, rfl, rfl⟩
  · exact ⟨.greater, rfl, rfl⟩
  · exact ⟨.greaterEq, rfl, rfl⟩

theorem lexeme_of_operator? {level : Level} (h : level.operator? t = some op)
    (hl : t.Lexeme l) : op ∈ level.operators ∧ l = op.symbol.toList := by
  cases level <;> cases t <;> cases h <;> exact ⟨by decide, hl⟩

theorem lexeme_of_comparisonOp? (h : Reader.comparisonOp? t = some op) (hl : t.Lexeme l) :
    op ∈ comparisons ∧ l = op.symbol.toList := by
  cases t <;> cases h <;> exact ⟨by decide, hl⟩

end Operators

section Expressions

/-- One more operator at the end of a chain. The induction goes along the chain, whose
    trees all end in the last one. -/
theorem Grammar.Derives.after_more {level : Level} {left e right : Expr} {us ts : List Token}
    {t : Token} {op : BinaryOp} (h : Derives (.after level left) us e)
    (hop : level.operator? t = some op) (hright : Derives level.operand ts right) :
    Derives (.after level left) (us ++ t :: ts) (.binary op e right) := by
  have hlast : ∀ e, Derives (.after level e) (t :: ts) (.binary op e right) := by
    intro e
    have hmore : Derives (.after level e) (t :: (ts ++ [])) (.binary op e right) :=
      .more hop hright .done
    rwa [List.append_nil] at hmore
  generalize hpart : Part.after level left = part at h
  induction h generalizing left with
  | done =>
      cases hpart
      exact hlast _
  | more hop' hright' hrest' ihright' ihrest' =>
      cases hpart
      rw [List.cons_append, List.append_assoc]
      exact .more hop' hright' (ihrest' rfl)
  | _ => cases hpart

theorem Grammar.Derives.chain_more {level : Level} {left right : Expr} {ts us : List Token}
    {t : Token} {op : BinaryOp} (h : Derives (.chained level) ts left)
    (hop : level.operator? t = some op) (hright : Derives level.operand us right) :
    Derives (.chained level) (ts ++ t :: us) (.binary op left right) := by
  cases h with
  | chain hfirst hrest =>
      rw [List.append_assoc]
      exact .chain hfirst (hrest.after_more hop hright)

/-- A text that is derivable is spelled by tokens that are. -/
theorem Writes.exists_derives {part : Part} {xs : List Char} {e : Expr} (h : Writes part xs e) :
    ∃ ts, Derives part ts e ∧ Spelled ts xs := by
  induction h with
  | operand h ih =>
      rcases ih with ⟨ts, hts, hspelled⟩
      have hchain := Derives.chain hts .done
      rw [List.append_nil] at hchain
      exact ⟨ts, hchain, hspelled⟩
  | chain hop hleft hb hright ihleft ihright =>
      rcases ihleft with ⟨ts, hts, hxs⟩
      rcases ihright with ⟨us, hus, hys⟩
      rcases exists_operator? hop with ⟨t, ht, hlexeme⟩
      exact ⟨ts ++ t :: us, hts.chain_more ht hus, hxs.append (.cons hb hlexeme hys)⟩
  | uncompared h ih =>
      rcases ih with ⟨ts, hts, hspelled⟩
      exact ⟨ts, .uncompared hts, hspelled⟩
  | compared hop hleft hb hright ihleft ihright =>
      rcases ihleft with ⟨ts, hts, hxs⟩
      rcases ihright with ⟨us, hus, hys⟩
      rcases exists_comparisonOp? hop with ⟨t, ht, hlexeme⟩
      exact ⟨ts ++ t :: us, .compared ht hts hus, hxs.append (.cons hb hlexeme hys)⟩
  | not hb h ih =>
      rcases ih with ⟨ts, hts, hspelled⟩
      exact ⟨.bang :: ts, .not hts, .cons hb rfl hspelled⟩
  | neg hb h ih =>
      rcases ih with ⟨ts, hts, hspelled⟩
      exact ⟨.minus :: ts, .neg hts, .cons hb rfl hspelled⟩
  | unsigned h ih =>
      rcases ih with ⟨ts, hts, hspelled⟩
      exact ⟨ts, .unsigned hts, hspelled⟩
  | isTrue hb => exact ⟨[.bool true], .bool true, spelled_singleton hb rfl⟩
  | isFalse hb => exact ⟨[.bool false], .bool false, spelled_singleton hb rfl⟩
  | @number b digits n hb h => exact ⟨[.number n], .number n, spelled_singleton hb h⟩
  | var hb h => exact ⟨[.ident _], .ident _, spelled_singleton hb ⟨h, rfl⟩⟩
  | parens hb h hb' ih =>
      rcases ih with ⟨ts, hts, hspelled⟩
      have hclosing : Spelled [.closing] _ := spelled_singleton hb' rfl
      exact ⟨.opening :: (ts ++ [.closing]), .parens hts, .cons hb rfl (hspelled.append hclosing)⟩

/-- What is spelled by tokens is a text of a part of the grammar. The rest of a chain is
    added to any text of its beginning. -/
def Grammar.Part.Written (ts : List Token) (e : Expr) : Part → Prop
  | after level left => ∀ xs ys, Writes (.chained level) xs left → Spelled ts ys →
    Writes (.chained level) (xs ++ ys) e
  | part => ∀ xs, Spelled ts xs → Writes part xs e

theorem Grammar.Level.writes_of_written {level : Level} {ts : List Token} {e : Expr}
    (h : level.operand.Written ts e) {xs : List Char} (hxs : Spelled ts xs) :
    Writes level.operand xs e := by
  cases level <;> exact h xs hxs

/-- A text that is spelled by derivable tokens is derivable. -/
theorem Grammar.Derives.written {part : Part} {ts : List Token} {e : Expr}
    (h : Derives part ts e) : part.Written ts e := by
  induction h with
  | @chain level ts us left e hfirst hrest ihfirst ihrest =>
      intro xs hxs
      rcases hxs.split with ⟨ys, zs, rfl, hys, hzs⟩
      exact ihrest ys zs (.operand (Level.writes_of_written ihfirst hys)) hzs
  | done =>
      intro xs ys hxs hys
      cases hys
      rw [List.append_nil]
      exact hxs
  | @more level token op ts us left right e hop hright hrest ihright ihrest =>
      intro xs ys hxs hys
      cases hys with
      | @cons b l zs _ _ hb hl hzs =>
          rcases hzs.split with ⟨ys, zs, rfl, hys, hzs⟩
          rcases lexeme_of_operator? hop hl with ⟨hmem, rfl⟩
          -- The beginning of the chain takes in the operator and its operand, and what is
          -- left of the chain is added to that.
          have hleft := Writes.chain hmem hxs hb (Level.writes_of_written ihright hys)
          have hall := ihrest _ zs hleft hzs
          simp only [List.append_assoc] at hall
          exact hall
  | uncompared hsum ih =>
      intro xs hxs
      exact .uncompared (ih xs hxs)
  | compared hop hleft hright ihleft ihright =>
      intro xs hxs
      rcases hxs.split with ⟨ys, zs, rfl, hys, hzs⟩
      cases hzs with
      | cons hb hl hzs =>
          rcases lexeme_of_comparisonOp? hop hl with ⟨hmem, rfl⟩
          exact .compared hmem (ihleft _ hys) hb (ihright _ hzs)
  | not hoperand ih =>
      intro xs hxs
      cases hxs with
      | cons hb hl hxs =>
          cases hl
          exact .not hb (ih _ hxs)
  | neg hoperand ih =>
      intro xs hxs
      cases hxs with
      | cons hb hl hxs =>
          cases hl
          exact .neg hb (ih _ hxs)
  | unsigned hprimary ih =>
      intro xs hxs
      exact .unsigned (ih xs hxs)
  | bool b =>
      intro xs hxs
      rcases hxs.exists_lexeme with ⟨blank, l, rfl, hblank, hl⟩
      cases b with
      | true =>
          cases hl
          exact .isTrue hblank
      | false =>
          cases hl
          exact .isFalse hblank
  | number n =>
      intro xs hxs
      rcases hxs.exists_lexeme with ⟨blank, l, rfl, hblank, hl⟩
      exact .number hblank hl
  | ident name =>
      intro xs hxs
      rcases hxs.exists_lexeme with ⟨blank, l, rfl, hblank, hl, rfl⟩
      exact .var hblank hl
  | parens hinner ih =>
      intro xs hxs
      cases hxs with
      | cons hb hl hxs =>
          rcases hxs.split with ⟨ys, zs, rfl, hys, hzs⟩
          rcases hzs.exists_lexeme with ⟨b', l', rfl, hb', hl'⟩
          cases hl
          cases hl'
          exact .parens hb (ih _ hys) hb'

theorem writes_iff {xs : List Char} {e : Expr} : Writes (.chained .disjunction) xs e ↔
    ∃ ts, Derives (.chained .disjunction) ts e ∧ Spelled ts xs := by
  refine ⟨Writes.exists_derives, ?_⟩
  intro h
  rcases h with ⟨ts, hts, hspelled⟩
  exact hts.written xs hspelled

end Expressions

section Operations

theorem writesOp_iff {xs : List Char} {op : ChannelOp} :
    WritesOp xs op ↔ ∃ ts, DerivesOp ts op ∧ Spelled ts xs := by
  constructor
  · intro h
    cases h with
    | send hb hname hb' hvalue =>
        rcases writes_iff.mp hvalue with ⟨ts, hts, hspelled⟩
        exact ⟨_, .send _ hts, .cons hb ⟨hname, rfl⟩ (.cons hb' rfl hspelled)⟩
    | receive hb hname hb' hb'' htarget =>
        exact ⟨_, .receive _ _, .cons hb ⟨hname, rfl⟩
          (.cons hb' rfl (spelled_singleton hb'' ⟨htarget, rfl⟩))⟩
  · intro h
    rcases h with ⟨ts, hop, hspelled⟩
    cases hop with
    | send channel hvalue =>
        cases hspelled with
        | cons hb hname hrest =>
            cases hrest with
            | cons hb' hl hrest =>
                rcases hname with ⟨hname, rfl⟩
                cases hl
                exact .send hb hname hb' (writes_iff.mpr ⟨_, hvalue, hrest⟩)
    | receive channel target =>
        cases hspelled with
        | cons hb hname hrest =>
            cases hrest with
            | cons hb' hl hrest =>
                rcases hrest.exists_lexeme with ⟨b'', l, rfl, hb'', htarget, rfl⟩
                rcases hname with ⟨hname, rfl⟩
                cases hl
                exact .receive hb hname hb' hb'' htarget

/-- Tokens that are two channel operations with a bar between them. -/
def DerivesPair (ts : List Token) (ops : ChannelOp × ChannelOp) : Prop :=
  ∃ us vs, ts = us ++ .bar :: vs ∧ DerivesOp us ops.1 ∧ DerivesOp vs ops.2

theorem writesPair_iff {xs : List Char} {ops : ChannelOp × ChannelOp} :
    WritesPair xs ops ↔ ∃ ts, DerivesPair ts ops ∧ Spelled ts xs := by
  constructor
  · intro h
    cases h with
    | mk hfirst hb hsecond =>
        rcases writesOp_iff.mp hfirst with ⟨us, hus, hxs⟩
        rcases writesOp_iff.mp hsecond with ⟨vs, hvs, hys⟩
        exact ⟨_, ⟨us, vs, rfl, hus, hvs⟩, hxs.append (.cons hb rfl hys)⟩
  · intro h
    rcases h with ⟨ts, ⟨us, vs, rfl, hus, hvs⟩, hspelled⟩
    rcases hspelled.split with ⟨ys, zs, rfl, hys, hzs⟩
    cases hzs with
    | cons hb hl hzs =>
        cases hl
        exact .mk (writesOp_iff.mpr ⟨us, hus, hys⟩) hb (writesOp_iff.mpr ⟨vs, hvs, hzs⟩)

theorem DerivesPair.walk {ts : List Token} {ops : ChannelOp × ChannelOp}
    (h : DerivesPair ts ops) : Place.before.walk ts = some .after := by
  rcases h with ⟨us, vs, rfl, hus, hvs⟩
  exact Place.walk_append hus.walk (Place.walk_cons rfl hvs.walk)

end Operations

section Actions

theorem writesStatement_iff {xs : List Char} {s : Statement} :
    WritesStatement xs s ↔ ∃ ts, DerivesStatement ts s ∧ Spelled ts xs := by
  constructor
  · intro h
    cases h with
    | skip hb => exact ⟨_, .skip, spelled_singleton hb rfl⟩
    | assign hb hname hb' hvalue =>
        rcases writes_iff.mp hvalue with ⟨ts, hts, hspelled⟩
        exact ⟨_, .assign _ hts, .cons hb ⟨hname, rfl⟩ (.cons hb' rfl hspelled)⟩
  · intro h
    rcases h with ⟨ts, hs, hspelled⟩
    cases hs with
    | skip =>
        rcases hspelled.exists_lexeme with ⟨b, l, rfl, hb, hl⟩
        cases hl
        exact .skip hb
    | assign target hvalue =>
        cases hspelled with
        | cons hb hname hrest =>
            cases hrest with
            | cons hb' hl hrest =>
                rcases hname with ⟨hname, rfl⟩
                cases hl
                exact .assign hb hname hb' (writes_iff.mpr ⟨_, hvalue, hrest⟩)

theorem writesStatements_iff {xs : List Char} {ss : List Statement} :
    WritesStatements xs ss ↔ ∃ ts, DerivesStatements ts ss ∧ Spelled ts xs := by
  constructor
  · intro h
    induction h with
    | one h =>
        rcases writesStatement_iff.mp h with ⟨ts, hts, hspelled⟩
        exact ⟨ts, .one hts, hspelled⟩
    | cons h hb hrest ih =>
        rcases writesStatement_iff.mp h with ⟨ts, hts, hxs⟩
        rcases ih with ⟨us, hus, hys⟩
        exact ⟨_, .cons hts hus, hxs.append (.cons hb rfl hys)⟩
  · intro h
    rcases h with ⟨ts, hts, hspelled⟩
    induction hts generalizing xs with
    | one h => exact .one (writesStatement_iff.mpr ⟨_, h, hspelled⟩)
    | cons h hrest ih =>
        rcases hspelled.split with ⟨ys, zs, rfl, hys, hzs⟩
        cases hzs with
        | cons hb hl hzs =>
            cases hl
            exact .cons (writesStatement_iff.mpr ⟨_, h, hys⟩) hb (ih hzs)

theorem writesAction_iff {xs : List Char} {ss : List Statement} :
    WritesAction xs ss ↔ ∃ ts, DerivesAction ts ss ∧ Spelled ts xs := by
  constructor
  · intro h
    cases h with
    | empty => exact ⟨[], .empty, .nil⟩
    | plain h =>
        rcases writesStatements_iff.mp h with ⟨ts, hts, hspelled⟩
        exact ⟨ts, .plain hts, hspelled⟩
    | closed h hb =>
        rcases writesStatements_iff.mp h with ⟨ts, hts, hspelled⟩
        exact ⟨_, .closed hts, hspelled.append (spelled_singleton hb rfl)⟩
  · intro h
    rcases h with ⟨ts, hts, hspelled⟩
    cases hts with
    | empty =>
        cases hspelled
        exact .empty
    | plain h => exact .plain (writesStatements_iff.mpr ⟨ts, h, hspelled⟩)
    | closed h =>
        rcases hspelled.split with ⟨ys, zs, rfl, hys, hzs⟩
        rcases hzs.exists_lexeme with ⟨b, l, rfl, hb, hl⟩
        cases hl
        exact .closed (writesStatements_iff.mpr ⟨_, h, hys⟩) hb

theorem Grammar.DerivesStatement.walk {ts : List Token} {s : Statement}
    (h : DerivesStatement ts s) : Place.before.walk ts = some .after := by
  cases h with
  | skip => rfl
  | assign target hvalue => exact Place.walk_cons rfl (Place.walk_cons rfl hvalue.walk)

theorem Grammar.DerivesStatements.walk {ts : List Token} {ss : List Statement}
    (h : DerivesStatements ts ss) : Place.before.walk ts = some .after := by
  induction h with
  | one h => exact h.walk
  | cons h hrest ih => exact Place.walk_append h.walk (Place.walk_cons rfl ih)

theorem Grammar.DerivesAction.exists_walk {ts : List Token} {ss : List Statement}
    (h : DerivesAction ts ss) : ∃ place, Place.before.walk ts = some place := by
  cases h with
  | empty => exact ⟨.before, rfl⟩
  | plain h => exact ⟨.after, h.walk⟩
  | closed h => exact ⟨.before, Place.walk_append h.walk rfl⟩

end Actions

/-- A reader that finds what its tokens derive recognizes what these tokens spell. -/
theorem recognizes_of_derives {α : Type} {parse? : String → Option α}
    {writes : List Char → α → Prop} {derives : List Token → α → Prop}
    (hparse : ∀ text a, parse? text = some a ↔
      ∃ ts, Token.tokenize text = some ts ∧ derives ts a)
    (hwalk : ∀ ts a, derives ts a → ∃ place, Place.before.walk ts = some place)
    (hwrites : ∀ xs a, writes xs a ↔ ∃ ts, derives ts a ∧ Spelled ts xs) :
    Recognizes parse? writes := by
  intro text
  have hiff : ∀ a, parse? text = some a ↔ IsText writes text a := by
    intro a
    rw [hparse]
    constructor
    · intro h
      rcases h with ⟨ts, hscan, hts⟩
      rcases spelled_of_scan hscan with ⟨xs, b, htext, hb, hspelled⟩
      exact ⟨xs, b, htext, hb, (hwrites xs a).mpr ⟨ts, hts, hspelled⟩⟩
    · intro h
      rcases h with ⟨xs, b, htext, hb, hxs⟩
      rcases (hwrites xs a).mp hxs with ⟨ts, hts, hspelled⟩
      rcases hwalk ts a hts with ⟨place, hplace⟩
      refine ⟨ts, ?_, hts⟩
      rw [Token.tokenize, htext]
      exact scan_of_walk hspelled hb hplace
  refine ⟨hiff, ?_⟩
  -- A text is read as one thing, so it stands for one.
  intro a ha a' ha'
  have hsome := (hiff a).mpr ha
  rw [(hiff a').mpr ha'] at hsome
  exact (Option.some.inj hsome).symm

section Readers

theorem recognizes_conditions : Recognizes Expr.parse? (Writes (.chained .disjunction)) :=
  recognizes_of_derives (fun _ _ => Expr.parse?_eq_some_iff) (fun _ _ h => ⟨_, h.walk⟩)
    (fun _ _ => writes_iff)

theorem recognizes_actions : Recognizes Statement.parse? WritesAction :=
  recognizes_of_derives (fun _ _ => Statement.parse?_eq_some_iff) (fun _ _ h => h.exists_walk)
    (fun _ _ => writesAction_iff)

theorem recognizes_operations : Recognizes ChannelOp.parse? WritesOp :=
  recognizes_of_derives (fun _ _ => ChannelOp.parse?_eq_some_iff) (fun _ _ h => ⟨_, h.walk⟩)
    (fun _ _ => writesOp_iff)

theorem recognizes_pairs : Recognizes ChannelOp.parsePair? WritesPair := by
  refine recognizes_of_derives ?_ (fun _ _ h => ⟨_, h.walk⟩) (fun _ _ => writesPair_iff)
  intro text ops
  rw [ChannelOp.parsePair?_eq_some_iff]
  constructor
  · intro h
    rcases h with ⟨us, vs, hscan, hus, hvs⟩
    exact ⟨_, hscan, us, vs, rfl, hus, hvs⟩
  · intro h
    rcases h with ⟨ts, hscan, us, vs, rfl, hus, hvs⟩
    exact ⟨us, vs, hscan, hus, hvs⟩

end Readers

end Script

end Interleaving
