import Interleaving.Proofs.Script.Grammar

/-!
# The Grammar of Actions

An action is a sequence of statements with semicolons between them, possibly one more
semicolon at the end, or nothing at all. Here it is a relation between tokens and
statements, as `Grammar.Derives` is one for expressions, and the reader of actions finds
exactly what is derivable.

The reader treats a semicolon the same way whether a statement follows or not. So it is
shown to read a sequence with and without the last semicolon in one induction.

## Main definitions

* `Grammar.DerivesStatement`, `Grammar.DerivesStatements`: One statement, and one or more.
* `Grammar.DerivesAction`: An action.

## Theorems

* `Grammar.statements_sound`, `Grammar.DerivesAction.statements_eq`: The reader of actions
  and the grammar agree.
* `Expr.parse?_eq_some_iff`, `Statement.parse?_eq_some_iff`: What texts are read as.
-/

namespace Interleaving

namespace Script

namespace Grammar

open Reader

/-- Tokens that are one statement. -/
inductive DerivesStatement : List Token → Statement → Prop where
  | skip : DerivesStatement [.skip] .skip
  | assign (target : String) {ts : List Token} {value : Expr}
      (hvalue : Derives (.chained .disjunction) ts value) :
      DerivesStatement (.ident target :: .assign :: ts) (.assign target value)

/-- Tokens that are statements with semicolons between them. -/
inductive DerivesStatements : List Token → List Statement → Prop where
  | one {ts : List Token} {s : Statement} (h : DerivesStatement ts s) : DerivesStatements ts [s]
  | cons {ts us : List Token} {s : Statement} {ss : List Statement} (h : DerivesStatement ts s)
      (hrest : DerivesStatements us ss) : DerivesStatements (ts ++ .semicolon :: us) (s :: ss)

/-- Tokens that are an action. -/
inductive DerivesAction : List Token → List Statement → Prop where
  | empty : DerivesAction [] []
  | plain {ts : List Token} {ss : List Statement} (h : DerivesStatements ts ss) :
      DerivesAction ts ss
  | closed {ts : List Token} {ss : List Statement} (h : DerivesStatements ts ss) :
      DerivesAction (ts ++ [.semicolon]) ss

/-- A statement and a semicolon may stand before any action. -/
theorem DerivesAction.cons {ts us : List Token} {s : Statement} {ss : List Statement}
    (h : DerivesStatement ts s) (hrest : DerivesAction us ss) :
    DerivesAction (ts ++ .semicolon :: us) (s :: ss) := by
  cases hrest with
  | empty => exact .closed (.one h)
  | plain hrest => exact .plain (.cons h hrest)
  | @closed us _ hrest =>
      have haction := DerivesAction.closed (DerivesStatements.cons h hrest)
      rw [List.append_assoc, List.cons_append] at haction
      exact haction

theorem statement_sound {tokens rest : List Token} {s : Statement}
    (h : statement tokens = some (s, rest)) :
    ∃ ts, tokens = ts ++ rest ∧ DerivesStatement ts s := by
  unfold statement at h
  split at h
  · cases h
    exact ⟨[.skip], rfl, .skip⟩
  · next target tail =>
    rw [Option.map_eq_some_iff] at h
    rcases h with ⟨⟨value, rest'⟩, hvalue, hpair⟩
    cases hpair
    rcases expr_sound _ _ _ _ hvalue with ⟨ts, rfl, hts⟩
    exact ⟨.ident target :: .assign :: ts, rfl, .assign target hts⟩
  · cases h

theorem statements_sound {bound : Nat} {tokens : List Token} {ss : List Statement}
    (h : statements bound tokens = some ss) : DerivesAction tokens ss := by
  induction bound generalizing tokens ss with
  | zero =>
      cases tokens with
      | nil =>
          cases h
          exact .empty
      | cons token tokens => cases h
  | succ bound ih =>
      cases tokens with
      | nil =>
          cases h
          exact .empty
      | cons token tokens =>
          rw [statements] at h
          · split at h
            · next s hread =>
              cases h
              rcases statement_sound hread with ⟨ts, htokens, hts⟩
              rw [htokens, List.append_nil]
              exact .plain (.one hts)
            · next s rest hread =>
              -- A semicolon is taken, and what follows is an action again.
              rw [Option.map_eq_some_iff] at h
              rcases h with ⟨others, hothers, rfl⟩
              rcases statement_sound hread with ⟨ts, htokens, hts⟩
              rw [htokens]
              exact .cons hts (ih hothers)
            · cases h
          · exact List.cons_ne_nil token tokens

theorem statement_complete {ts rest : List Token} {s : Statement} (h : DerivesStatement ts s)
    (hends : Ends 0 rest) : statement (ts ++ rest) = some (s, rest) := by
  cases h with
  | skip => rfl
  | @assign target ts value hvalue =>
      simp only [List.cons_append, statement, hvalue.expression_eq hends, Option.map_some]

theorem DerivesStatement.ne_nil {ts : List Token} {s : Statement} (h : DerivesStatement ts s) :
    ts ≠ [] := by
  cases h <;> exact List.cons_ne_nil _ _

/-- A statement at the end of the tokens is the last one. -/
theorem DerivesStatement.statements_last {ts : List Token} {s : Statement}
    (h : DerivesStatement ts s) (bound : Nat) : statements (bound + 1) ts = some [s] := by
  have hread := statement_complete h (ends_nil 0)
  rw [List.append_nil] at hread
  rw [statements]
  · rw [hread]
  · exact h.ne_nil

/-- A semicolon hands on to what follows it. -/
theorem DerivesStatement.statements_semicolon {ts : List Token} {s : Statement}
    (h : DerivesStatement ts s) (bound : Nat) (rest : List Token) :
    statements (bound + 1) (ts ++ .semicolon :: rest) = (statements bound rest).map (s :: ·) := by
  rw [statements]
  · rw [statement_complete h (ends_cons_of_none rfl)]
  · intro hnil
    exact h.ne_nil (List.append_eq_nil_iff.mp hnil).1

theorem statements_nil (bound : Nat) : statements bound [] = some [] := by
  cases bound <;> rfl

/-- Statements are read, and also with a semicolon after the last one. -/
theorem DerivesStatements.statements_eq {ts : List Token} {ss : List Statement}
    (h : DerivesStatements ts ss) : ∀ bound, ts.length ≤ bound →
      statements bound ts = some ss ∧ statements bound (ts ++ [.semicolon]) = some ss := by
  induction h with
  | @one ts s h =>
      intro bound hbound
      have hpos := List.length_pos_iff.mpr h.ne_nil
      obtain ⟨bound, rfl⟩ : ∃ b, bound = b + 1 := ⟨bound - 1, by omega⟩
      refine ⟨h.statements_last bound, ?_⟩
      rw [h.statements_semicolon, statements_nil, Option.map_some]
  | @cons ts us s ss h hrest ih =>
      intro bound hbound
      rw [List.length_append, List.length_cons] at hbound
      obtain ⟨bound, rfl⟩ : ∃ b, bound = b + 1 := ⟨bound - 1, by omega⟩
      have hothers := ih bound (by omega)
      constructor
      · rw [h.statements_semicolon, hothers.1, Option.map_some]
      · rw [List.append_assoc, List.cons_append, h.statements_semicolon, hothers.2,
          Option.map_some]

theorem DerivesAction.statements_eq {ts : List Token} {ss : List Statement}
    (h : DerivesAction ts ss) : statements ts.length ts = some ss := by
  cases h with
  | empty => rfl
  | plain h => exact (h.statements_eq _ (Nat.le_refl _)).1
  | closed h =>
      refine (h.statements_eq _ ?_).2
      rw [List.length_append]
      omega

theorem expression_toEnd_iff {ts : List Token} {e : Expr} :
    Reader.expression.toEnd ts = some e ↔ Derives (.chained .disjunction) ts e := by
  rw [toEnd_eq_some_iff]
  constructor
  · intro h
    rcases expr_sound _ _ _ _ h with ⟨ts', rfl, hts⟩
    rw [List.append_nil]
    exact hts
  · intro h
    have hread := h.expression_eq (ends_nil 0)
    rwa [List.append_nil] at hread

end Grammar

open Grammar

theorem Expr.parse?_eq_some_iff {text : String} {e : Expr} :
    Expr.parse? text = some e ↔
      ∃ ts, Token.tokenize text = some ts ∧ Derives (.chained .disjunction) ts e := by
  unfold Expr.parse?
  simp only [Option.bind_eq_bind, Option.bind_eq_some_iff, expression_toEnd_iff]

theorem Statement.parse?_eq_some_iff {text : String} {ss : List Statement} :
    Statement.parse? text = some ss ↔
      ∃ ts, Token.tokenize text = some ts ∧ DerivesAction ts ss := by
  unfold Statement.parse?
  simp only [Option.bind_eq_bind, Option.bind_eq_some_iff]
  constructor
  · intro h
    rcases h with ⟨ts, hts, hread⟩
    exact ⟨ts, hts, statements_sound hread⟩
  · intro h
    rcases h with ⟨ts, hts, haction⟩
    exact ⟨ts, hts, haction.statements_eq⟩

end Script

end Interleaving
