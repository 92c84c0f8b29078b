import Interleaving.Proofs.Environment.Propositions
import Interleaving.Proofs.Registry.Initialization
import Interleaving.Proofs.Script.Kinds
import Interleaving.Proofs.Script.Rendezvous
import Interleaving.Proofs.Script.Variables

/-!
# Scripts Make No Texts

The language has literals for booleans and integers and none for texts, and no operator
makes a text. Its names are words. So whatever a script that was read does to an
environment with names of the language and without texts, the environment stays one: an
action binds the names it assigns to values of its expressions, and a rendezvous binds the
name of the receiver to the value that was sent.

This holds of scripts as they are read, and not of all trees: a tree may have any value
as a literal and any text as a name. So the trees come with the condition that they have
not, and it is shown for the grammar, one lemma for each of its relations.

## Main definitions

* `Expr.Plain`, `Statement.Plain`, `ChannelOp.Plain`: Trees that a text can be read as.
* `GivesPlain`: A computation of a boolean or an integer.

## Theorems

* `isName_of_tokenize`: Words are read as names of the language.
* `Grammar.Derives.plain`, `Grammar.DerivesAction.plain_of_mem`, `Grammar.DerivesOp.plain`: What is
  derivable has no texts.
* `Expr.Plain.eval`, `Statement.plain_run`: Evaluation makes no texts.
* `Environment.Plain.effect`, `Environment.Plain.rendezvousEffect`,
  `Environment.Plain.runInitialization`: The standard registry keeps environments plain.
-/

namespace Interleaving

namespace Script

/-- An expression without texts. -/
def Expr.Plain : Expr → Prop
  | literal value => value.Plain
  | var _ => True
  | unary _ operand => operand.Plain
  | binary _ left right => left.Plain ∧ right.Plain

/-- A statement without texts that assigns a name of the language. -/
def Statement.Plain : Statement → Prop
  | skip => True
  | assign target value => IsName target.toList ∧ value.Plain

/-- An operation without texts on a name of the language. -/
def ChannelOp.Plain : ChannelOp → Prop
  | send _ value => value.Plain
  | receive _ target => IsName target.toList

section Reading

/-- Each token that is found has a lexeme. -/
theorem Spelled.exists_lexeme_of_mem {ts : List Token} {xs : List Char} (h : Spelled ts xs)
    {t : Token} (ht : t ∈ ts) : ∃ l, t.Lexeme l := by
  induction h with
  | nil => cases ht
  | @cons b l xs t' ts _ hl _ ih =>
      rcases List.mem_cons.mp ht with rfl | ht
      · exact ⟨l, hl⟩
      · exact ih ht

/-- Words are read as names of the language. -/
theorem isName_of_tokenize {text : String} {ts : List Token} (h : Token.tokenize text = some ts)
    {name : String} (hname : .ident name ∈ ts) : IsName name.toList := by
  rcases spelled_of_scan h with ⟨ys, b, -, -, hspelled⟩
  rcases hspelled.exists_lexeme_of_mem hname with ⟨l, hl, hlexeme⟩
  rw [hlexeme, String.toList_ofList]
  exact hl

namespace Grammar

/-- What has been read of a chain has no texts. -/
def Part.LeftPlain : Part → Prop
  | .after _ left => left.Plain
  | _ => True

theorem Level.leftPlain_operand (level : Level) : level.operand.LeftPlain := by
  cases level <;> trivial

/-- The literals of an expression are those of its tokens. The tree of a chain grows from
    what has been read before, so that must be plain already. -/
theorem Derives.plain {part : Part} {ts : List Token} {e : Expr} (h : Derives part ts e)
    (hleft : part.LeftPlain) : e.Plain := by
  induction h with
  | @chain level _ _ _ _ _ _ ihfirst ihrest => exact ihrest (ihfirst level.leftPlain_operand)
  | done => exact hleft
  | @more level _ _ _ _ _ _ _ _ _ _ ihright ihrest =>
      exact ihrest ⟨hleft, ihright level.leftPlain_operand⟩
  | uncompared _ ih => exact ih trivial
  | compared _ _ _ ihleft ihright => exact ⟨ihleft trivial, ihright trivial⟩
  | not _ ih => exact ih trivial
  | neg _ ih => exact ih trivial
  | unsigned _ ih => exact ih trivial
  | bool b => exact Or.inl ⟨b, rfl⟩
  | number n => exact Or.inr ⟨n, rfl⟩
  | ident name => exact trivial
  | parens _ ih => exact ih trivial

section Named

variable {ts : List Token} (hnames : ∀ name, .ident name ∈ ts → IsName name.toList)

include hnames

theorem DerivesStatement.plain {s : Statement} (h : DerivesStatement ts s) : s.Plain := by
  cases h with
  | skip => trivial
  | assign target hvalue => exact ⟨hnames target List.mem_cons_self, hvalue.plain trivial⟩

theorem DerivesStatements.plain_of_mem {ss : List Statement} (h : DerivesStatements ts ss) :
    ∀ s ∈ ss, s.Plain := by
  induction h with
  | one h =>
      intro s hs
      rw [List.mem_singleton.mp hs]
      exact h.plain hnames
  | @cons ts us s ss h _ ih =>
      have hfirst : s.Plain :=
        h.plain fun name hname => hnames name (List.mem_append_left _ hname)
      have hrest : ∀ s ∈ ss, s.Plain :=
        ih fun name hname =>
          hnames name (List.mem_append_right _ (List.mem_cons_of_mem _ hname))
      exact List.forall_mem_cons.mpr ⟨hfirst, hrest⟩

theorem DerivesAction.plain_of_mem {ss : List Statement} (h : DerivesAction ts ss) :
    ∀ s ∈ ss, s.Plain := by
  cases h with
  | empty =>
      intro s hs
      cases hs
  | plain h => exact h.plain_of_mem hnames
  | closed h => exact h.plain_of_mem fun name hname => hnames name (List.mem_append_left _ hname)

theorem DerivesOp.plain {op : ChannelOp} (h : DerivesOp ts op) : op.Plain := by
  cases h with
  | send channel hvalue => exact hvalue.plain trivial
  | receive channel target => exact hnames target (by simp)

end Named

end Grammar

theorem Statement.plain_of_parse? {text : String} {ss : List Statement}
    (h : Statement.parse? text = some ss) : ∀ s ∈ ss, s.Plain := by
  rcases Statement.parse?_eq_some_iff.mp h with ⟨ts, hts, hderives⟩
  exact hderives.plain_of_mem fun name => isName_of_tokenize hts

/-- A rendezvous sends no text and binds a name of the language. -/
theorem plain_of_exchange? {combined : String} {value : Expr} {target : String}
    (h : exchange? combined = some (value, target)) : value.Plain ∧ IsName target.toList := by
  rcases Option.bind_eq_some_iff.mp h with ⟨⟨first, second⟩, hpair, hexchange⟩
  rcases ChannelOp.parsePair?_eq_some_iff.mp hpair with ⟨ts, us, htokens, hfirst, hsecond⟩
  have hfirstPlain : first.Plain :=
    hfirst.plain fun name hname => isName_of_tokenize htokens (List.mem_append_left _ hname)
  have hsecondPlain : second.Plain :=
    hsecond.plain fun name hname =>
      isName_of_tokenize htokens (List.mem_append_right _ (List.mem_cons_of_mem _ hname))
  rcases ChannelOp.exchange?_eq_some_iff.mp hexchange with ⟨channel, ⟨rfl, rfl⟩ | ⟨rfl, rfl⟩⟩
  · exact ⟨hfirstPlain, hsecondPlain⟩
  · exact ⟨hsecondPlain, hfirstPlain⟩

end Reading

section Evaluation

variable {env out : Environment}

/-- If a computation gives a value, then it is a boolean or an integer. -/
def GivesPlain (x : Except EvalError Value) : Prop :=
  ∀ value, x = .ok value → value.Plain

namespace GivesPlain

theorem bool (b : Bool) : GivesPlain (pure (.bool b)) := by
  intro value h
  cases h
  exact Or.inl ⟨b, rfl⟩

theorem error (e : EvalError) : GivesPlain (.error e) := by
  intro value h
  cases h

/-- Only the last step of a sequence counts. -/
theorem bind {α : Type} {x : Except EvalError α} {f : α → Except EvalError Value}
    (h : ∀ a, GivesPlain (f a)) : GivesPlain (x >>= f) := by
  intro value hvalue
  rcases bind_eq_ok_iff.mp hvalue with ⟨a, -, hvalue⟩
  exact h a value hvalue

theorem ite {p : Prop} [Decidable p] {x y : Except EvalError Value} (hx : GivesPlain x)
    (hy : GivesPlain y) : GivesPlain (if p then x else y) := by
  by_cases hp : p
  · rw [if_pos hp]
    exact hx
  · rw [if_neg hp]
    exact hy

theorem exactly (n : Int) : GivesPlain (exactly n) := by
  unfold Script.exactly
  cases checked n with
  | none => exact error _
  | some k =>
      intro value h
      cases h
      exact Or.inr ⟨k, rfl⟩

theorem apply (operation : Arithmetic) (a b : Int) : GivesPlain (operation.apply a b) := by
  cases operation with
  | add => exact exactly _
  | sub => exact exactly _
  | mul => exact exactly _
  | div => exact ite (error _) (exactly _)
  | rem => exact ite (error _) (ite (error _) (exactly _))

/-- The operators give booleans and integers, whatever their operands are. -/
theorem eval_binary (op : BinaryOp) (left right : Expr) :
    GivesPlain ((Expr.binary op left right).eval env) := by
  cases op with
  | or => exact bind fun _ => bind fun _ => ite (bool true) (bind fun _ => bind fun b => bool b)
  | and => exact bind fun _ => bind fun _ => ite (bind fun _ => bind fun b => bool b) (bool false)
  | equal => exact bind fun _ => bind fun _ => bool _
  | unequal => exact bind fun _ => bind fun _ => bool _
  | compare comparison => exact bind fun _ => bind fun _ => bind fun _ => bool _
  | arith operation => exact bind fun _ => bind fun _ => bind fun _ => apply operation _ _

theorem eval_unary (op : UnaryOp) (operand : Expr) :
    GivesPlain ((Expr.unary op operand).eval env) := by
  cases op with
  | not => exact bind fun _ => bind fun _ => bool _
  | neg => exact bind fun _ => bind fun _ => exactly _

end GivesPlain

/-- A text could come only from a literal or from a variable. -/
theorem Expr.Plain.eval {e : Expr} (h : e.Plain) (henv : env.Plain) : GivesPlain (e.eval env) := by
  -- No induction is needed: operators give no texts whatever their operands give.
  cases e with
  | literal v =>
      intro value hvalue
      cases hvalue
      exact h
  | var name =>
      intro value hvalue
      rw [Expr.eval] at hvalue
      split at hvalue
      · next hbound =>
        cases hvalue
        exact (henv name value hbound).2
      · cases hvalue
  | unary op operand => exact GivesPlain.eval_unary op operand
  | binary op left right => exact GivesPlain.eval_binary op left right

namespace Statement

theorem plain_step {s : Statement} (hs : s.Plain) (henv : env.Plain) (h : step env s = .ok out) :
    out.Plain := by
  cases s with
  | skip =>
      cases h
      exact henv
  | assign target value =>
      rcases bind_eq_ok_iff.mp h with ⟨v, hv, hout⟩
      cases hout
      exact henv.insert hs.1 (hs.2.eval henv v hv)

theorem plain_run {ss : List Statement} (hss : ∀ s ∈ ss, s.Plain) (henv : env.Plain)
    (h : run ss env = .ok out) : out.Plain := by
  induction ss generalizing env with
  | nil =>
      cases h
      exact henv
  | cons s rest ih =>
      rcases run_cons_eq_ok_iff.mp h with ⟨mid, hstep, hrest⟩
      have hmid : mid.Plain := plain_step (hss s List.mem_cons_self) henv hstep
      exact ih (fun s hs => hss s (List.mem_cons_of_mem _ hs)) hmid hrest

end Statement

end Evaluation

end Script

namespace Environment.Plain

open Script

variable {env out : Environment} {text : String}

/-- An action that was read leaves an environment plain. -/
theorem effect (henv : env.Plain)
    (h : ((Registry.standard : Registry Id).effect env text).run = .ok (some out)) : out.Plain := by
  rcases run_standard_effect_eq_ok_iff.mp h with ⟨ss, hparse, hrun⟩
  exact Statement.plain_run (Statement.plain_of_parse? hparse) henv hrun

/-- So does a rendezvous. -/
theorem rendezvousEffect (henv : env.Plain)
    (h : ((Registry.standard : Registry Id).rendezvousEffect env text).run = .ok (some out)) :
    out.Plain := by
  rcases run_standard_rendezvousEffect_eq_ok_iff.mp h with ⟨value, target, v, hexchange, hv, hout⟩
  rcases plain_of_exchange? hexchange with ⟨hvalue, htarget⟩
  rw [← hout]
  exact henv.insert htarget (hvalue.eval henv v hv)

/-- So does a sequence of initialization actions. -/
theorem runInitialization {actions : List String} (henv : env.Plain)
    (h : ((Registry.standard : Registry Id).runInitialization env actions).run = .ok out) :
    out.Plain := by
  have hthrough := Registry.run_runInitialization_eq_ok_iff.mp h
  clear h
  induction hthrough with
  | done env => exact henv
  | next heffect _ ih => exact ih (henv.effect heffect)

end Environment.Plain

end Interleaving
