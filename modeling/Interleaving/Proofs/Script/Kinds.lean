import Interleaving.Proofs.Computation
import Interleaving.Proofs.Script.Statements
import Interleaving.Registry.Script

/-!
# Kinds of Texts

A text can be a condition, an action, a one-sided action or the combined text of two
of them, and it is never two of these. The first two tokens and the bar decide which
one it can be: an action is empty or begins with `skip` or with `x :=`, an operation on a
channel begins with `c !` or `c ?`, and only combined texts have a bar. A condition
begins in none of these ways. It may begin with a variable, but then an operator follows,
and `:=`, `!` and `?` are none.

What the standard registry does with a text depends on its kind alone. As an action it
takes the texts that are actions and no others, so a one-sided action by itself has no
effect.

## Main definitions

* `Kind`: What a text can be.
* `Kind.reads`: Whether a text is of a kind.
* `Kind.ofTokens`: The only kind that tokens can be of.

## Theorems

* `Grammar.Derives.kind_eq`, `Grammar.DerivesAction.kind_eq`, `Grammar.DerivesOp.kind_eq`,
  `Grammar.DerivesOp.kind_pair_eq`: What is derivable is of its kind.
* `Kind.eq_of_reads`: A text is of one kind at most.
* `run_standard_effect_eq_ok_iff`, `run_standard_holds_eq_ok_iff`: What the standard registry does
  with a text.
-/

namespace Interleaving

namespace Script

/-- What a text can be. -/
inductive Kind where
  | condition
  | action
  | oneSided
  | rendezvous
  deriving DecidableEq, Repr

namespace Kind

/-- Whether a text is of a kind. -/
def reads : Kind → String → Bool
  | condition, text => (Expr.parse? text).isSome
  | action, text => (Statement.parse? text).isSome
  | oneSided, text => (ChannelOp.parse? text).isSome
  | rendezvous, text => (ChannelOp.parsePair? text).isSome

/-- The only kind that tokens can be of. -/
def ofTokens : List Token → Kind
  | [] | .skip :: _ | .ident _ :: .assign :: _ => action
  | .ident _ :: .bang :: rest | .ident _ :: .query :: rest =>
    if .bar ∈ rest then rendezvous else oneSided
  | _ => condition

end Kind

namespace Grammar

open Reader

/-- A variable alone is an expression. -/
theorem derives_ident (name : String) :
    Derives (.chained .disjunction) [.ident name] (.var name) := by
  have hproduct : Derives (.chained .product) [.ident name] (.var name) :=
    @Derives.chain .product _ _ _ _ (.unsigned (.ident name)) .done
  have hcomparison : Derives .comparison [.ident name] (.var name) :=
    .uncompared (@Derives.chain .sum _ _ _ _ hproduct .done)
  exact @Derives.chain .disjunction _ _ _ _ (@Derives.chain .conjunction _ _ _ _ hcomparison .done)
    .done

/-- In an expression an operator follows on a variable at the front. Otherwise the variable
    would be all that is read. -/
theorem Derives.tightness?_ne_none {name : String} {token : Token} {ts : List Token} {e : Expr}
    (h : Derives (.chained .disjunction) (.ident name :: token :: ts) e) :
    tightness? token ≠ none := by
  intro hnone
  have hall := h.expression_eq (ends_nil 0)
  have hfirst : expression (.ident name :: token :: ts) = some (.var name, token :: ts) :=
    (derives_ident name).expression_eq (ends_cons_of_none hnone)
  rw [List.append_nil, hfirst] at hall
  cases hall

theorem Derives.kind_eq {ts : List Token} {e : Expr} (h : Derives (.chained .disjunction) ts e) :
    Kind.ofTokens ts = .condition := by
  unfold Kind.ofTokens
  split
  · -- An expression is never empty.
    have hread := h.expression_eq (ends_nil 0)
    cases hread
  · have hskip := h.all_isOperandOrOperator .skip List.mem_cons_self
    cases hskip
  · -- What follows on the variable is no operator, here and in the next two cases.
    exact absurd rfl h.tightness?_ne_none
  · exact absurd rfl h.tightness?_ne_none
  · exact absurd rfl h.tightness?_ne_none
  · rfl

/-- The first statement decides what follows it is. -/
theorem DerivesStatement.kind_append_eq {ts : List Token} {s : Statement}
    (h : DerivesStatement ts s) (rest : List Token) : Kind.ofTokens (ts ++ rest) = .action := by
  cases h <;> rfl

theorem DerivesStatements.kind_append_eq {ts : List Token} {ss : List Statement}
    (h : DerivesStatements ts ss) (rest : List Token) : Kind.ofTokens (ts ++ rest) = .action := by
  cases h with
  | one h => exact h.kind_append_eq rest
  | cons h _ =>
      rw [List.append_assoc]
      exact h.kind_append_eq _

theorem DerivesAction.kind_eq {ts : List Token} {ss : List Statement} (h : DerivesAction ts ss) :
    Kind.ofTokens ts = .action := by
  cases h with
  | empty => rfl
  | plain h =>
      have hkind := h.kind_append_eq []
      rwa [List.append_nil] at hkind
  | closed h => exact h.kind_append_eq _

/-- The tokens after those of an operation matter only by whether there is a bar. -/
theorem DerivesOp.kind_append_eq {ts : List Token} {op : ChannelOp} (h : DerivesOp ts op)
    (rest : List Token) :
    Kind.ofTokens (ts ++ rest) = if .bar ∈ rest then .rendezvous else .oneSided := by
  -- An operation brings no bar of its own.
  have hbar := h.bar_not_mem
  cases h with
  | receive channel target => simp [Kind.ofTokens]
  | send channel hvalue =>
      simp only [List.mem_cons, reduceCtorEq, false_or] at hbar
      simp [Kind.ofTokens, hbar]

theorem DerivesOp.kind_eq {ts : List Token} {op : ChannelOp} (h : DerivesOp ts op) :
    Kind.ofTokens ts = .oneSided := by
  have hkind := h.kind_append_eq []
  rwa [List.append_nil, if_neg List.not_mem_nil] at hkind

theorem DerivesOp.kind_pair_eq {ts : List Token} {op : ChannelOp} (h : DerivesOp ts op)
    (us : List Token) : Kind.ofTokens (ts ++ .bar :: us) = .rendezvous := by
  rw [h.kind_append_eq, if_pos List.mem_cons_self]

end Grammar

open Grammar

/-- What a text is depends on its tokens. -/
theorem Kind.ofTokens_eq_of_reads {kind : Kind} {text : String} (h : kind.reads text = true) :
    (Token.tokenize text).map ofTokens = some kind := by
  cases kind with
  | condition =>
      rcases Option.isSome_iff_exists.mp h with ⟨e, he⟩
      rcases Expr.parse?_eq_some_iff.mp he with ⟨ts, hts, hderives⟩
      rw [hts, Option.map_some, hderives.kind_eq]
  | action =>
      rcases Option.isSome_iff_exists.mp h with ⟨ss, hss⟩
      rcases Statement.parse?_eq_some_iff.mp hss with ⟨ts, hts, hderives⟩
      rw [hts, Option.map_some, hderives.kind_eq]
  | oneSided =>
      rcases Option.isSome_iff_exists.mp h with ⟨op, hop⟩
      rcases ChannelOp.parse?_eq_some_iff.mp hop with ⟨ts, hts, hderives⟩
      rw [hts, Option.map_some, hderives.kind_eq]
  | rendezvous =>
      rcases Option.isSome_iff_exists.mp h with ⟨⟨first, second⟩, hpair⟩
      rcases ChannelOp.parsePair?_eq_some_iff.mp hpair with ⟨ts, us, hts, hfirst, -⟩
      rw [hts, Option.map_some, hfirst.kind_pair_eq]

/-- A text is of one kind at most. -/
theorem Kind.eq_of_reads {kind kind' : Kind} {text : String} (h : kind.reads text = true)
    (h' : kind'.reads text = true) : kind = kind' := by
  rw [← Option.some.injEq, ← ofTokens_eq_of_reads h, ofTokens_eq_of_reads h']

section Standard

variable {env : Environment} {text : String}

/-- An action does what its statements do one after the other. -/
theorem run_standard_effect {ss : List Statement} (h : Statement.parse? text = some ss) :
    ((Registry.standard : Registry Id).effect env text).run =
      (Statement.run ss env).map some := by
  have hfind : (Registry.standard : Registry Id).actions.find? (·.recognizes text) =
      some actionHandler := by
    simp [Registry.standard, actionHandler, h]
  unfold Registry.effect
  rw [hfind]
  simp only [actionHandler, h]
  cases Statement.run ss env <;> rfl

/-- Nothing else has an effect. -/
theorem run_standard_effect_of_not_action (h : Kind.action.reads text = false) :
    ((Registry.standard : Registry Id).effect env text).run =
      .error (.unrecognizedAction text) := by
  have hfind : (Registry.standard : Registry Id).actions.find? (·.recognizes text) = none := by
    rw [List.find?_eq_none]
    intro handler hhandler
    rw [List.mem_singleton.mp hhandler]
    exact Bool.not_eq_true _ ▸ h
  unfold Registry.effect
  rw [hfind]
  rfl

theorem run_standard_effect_eq_ok_iff {env' : Environment} :
    ((Registry.standard : Registry Id).effect env text).run = .ok (some env') ↔
      ∃ ss, Statement.parse? text = some ss ∧ Statement.run ss env = .ok env' := by
  cases hparse : Statement.parse? text with
  | none =>
      have hnot : Kind.action.reads text = false := by
        rw [Kind.reads, hparse]
        rfl
      rw [run_standard_effect_of_not_action hnot]
      simp
  | some ss =>
      rw [run_standard_effect hparse]
      cases hrun : Statement.run ss env <;> simp [Except.map, hrun]

/-- A condition says what its expression says, and a blank one always holds. -/
theorem run_standard_holds_eq_ok_iff {b : Bool} :
    ((Registry.standard : Registry Id).holds env text).run = .ok b ↔
      (Text.isBlank text = true ∧ b = true) ∨
        (Text.isBlank text = false ∧ ∃ e, Expr.parse? text = some e ∧ e.holds env = .ok b) := by
  have hfind : (Registry.standard : Registry Id).conditions.find? (·.recognizes text) =
      if Text.isBlank text || (Expr.parse? text).isSome then some conditionHandler else none :=
    List.find?_singleton
  unfold Registry.holds
  rw [hfind]
  by_cases hblank : Text.isBlank text = true
  · simp only [hblank, Bool.true_or, if_true, conditionHandler, run_pure_eq_ok_iff]
    simp [eq_comm]
  · cases hparse : Expr.parse? text with
    | none => simp [hblank]
    | some e => simp [hblank, hparse, conditionHandler, run_ofExcept]

end Standard

end Script

end Interleaving
