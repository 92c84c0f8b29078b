import Interleaving.Proofs.Registry.Initialization
import Interleaving.Proofs.Script.Kinds
import Interleaving.Proofs.Script.Language
import Mathlib.Data.List.Forall2

/-!
# Texts Put Together

Two guards are one guard when they are put into parentheses with `&&` between them, and actions
are one action when semicolons are put between them. In both cases the text is read as what the
parts are read as, put together, and to evaluate it is to evaluate the parts one after the
other. Nothing but the parts as texts is given, each with space wherever it likes, so this
depends on where a reader stops: a parenthesis or a semicolon ends every expression, and it
takes the space before it along.

The two differ in what is left to say. A conjunction asks its operands to be booleans in its own
name, and a guard is asked in the name of guards, so of all errors this one alone differs. An
action may end in a semicolon of its own, and then it cannot be followed by another.

## Main definitions

* `conjunctionText`: Two conditions in parentheses with `&&` between them.
* `NoGuard`: Of two guards, one that is looked at gives something else than a boolean.
* `lastMark?`: The last character of a text that is no space.

## Theorems

* `isBlank_eq_false_of_parse?`: A condition that was read is not blank.
* `parse?_conjunctionText`: A conjunction of texts is read as the conjunction.
* `WritesStatements.append`, `isText_intercalate`: Sequences of statements one after the
  other.
* `run_standard_runInitialization`: Actions one after the other.
* `bothHold_agrees_conjunctionText`, `effect_intercalate_eq_runInitialization`: What texts put
  together do.
-/

namespace Interleaving

namespace Script

open Token Grammar

section Blank

/-- The blank characters lie below all signs, digits and letters of the language, or above. -/
theorem toNat_of_isBlankChar {c : Char} (h : Text.isBlankChar c = true) :
    c.toNat ≤ 0x20 ∨ 0x85 ≤ c.toNat := by
  have hsides : ∀ range ∈ Text.blankRanges, range.2 ≤ 0x20 ∨ 0x85 ≤ range.1 := by decide
  rcases Text.inRanges_eq_true_iff.mp h with ⟨range, hrange, hlow, hhigh⟩
  rcases hsides range hrange with hside | hside
  · omega
  · omega

theorem toNat_of_isWordChar {c : Char} (h : isWordChar c = true) :
    '0'.toNat ≤ c.toNat ∧ c.toNat ≤ 'z'.toNat := by
  rcases Bool.or_eq_true_iff.mp h with halphanum | hunderscore
  · rcases Bool.or_eq_true_iff.mp halphanum with halpha | hdigit
    · rcases Bool.or_eq_true_iff.mp halpha with hupper | hlower
      · have hletter : 'A'.val ≤ c.val ∧ c.val ≤ 'Z'.val := of_decide_eq_true hupper
        exact ⟨Nat.le_trans (by decide) hletter.1, Nat.le_trans hletter.2 (by decide)⟩
      · have hletter := Bool.and_eq_true_iff.mp hlower
        exact ⟨Nat.le_trans (by decide) (of_decide_eq_true hletter.1), of_decide_eq_true hletter.2⟩
    · have hletter := Bool.and_eq_true_iff.mp hdigit
      exact ⟨of_decide_eq_true hletter.1, Nat.le_trans (of_decide_eq_true hletter.2) (by decide)⟩
  · rw [eq_of_beq hunderscore]
    decide

/-- A character that begins a token is not blank. -/
theorem isBlankChar_eq_false_of_first {c : Char} {rest : List Char} {t : Token} {more : Nat}
    (h : first c rest = some (t, more)) : Text.isBlankChar c = false := by
  have hword : isWordChar c = true → Text.isBlankChar c = false := by
    intro hc
    rw [Bool.eq_false_iff]
    intro hblank
    have hbounds : 0x30 ≤ c.toNat ∧ c.toNat ≤ 0x7A := toNat_of_isWordChar hc
    have hsides := toNat_of_isBlankChar hblank
    omega
  unfold first at h
  split at h
  · next hstart => exact hword (isWordChar_of_isWordStart hstart)
  · split at h
    · next hdigit => exact hword (isWordChar_of_isDigit hdigit)
    · unfold sign at h
      split at h <;> cases h <;> decide

/-- A condition that was read is not blank, for it has a token. -/
theorem isBlank_eq_false_of_parse? {text : String} {e : Expr} (h : Expr.parse? text = some e) :
    Text.isBlank text = false := by
  rcases Expr.parse?_eq_some_iff.mp h with ⟨ts, hscan, hderives⟩
  rcases spelled_of_scan hscan with ⟨xs, b, htext, -, hspelled⟩
  cases hspelled with
  | nil => cases hderives.kind_eq
  | @cons b' l ys t ts hb' hl hrest =>
      rcases first_of_lexeme hl with ⟨c, rest, rfl, -, hfirst⟩
      rw [Text.isBlank, List.all_eq_false]
      refine ⟨c, ?_, ?_⟩
      · rw [htext]
        simp
      · rw [isBlankChar_eq_false_of_first hfirst]
        exact Bool.false_ne_true

end Blank

section Conditions

/-- Two conditions in parentheses with `&&` between them. -/
def conjunctionText (first second : String) : String :=
  "(" ++ first ++ ")&&(" ++ second ++ ")"

/-- An operand without operators can stand on either side of `&&`. -/
theorem Writes.comparison_of_primary {xs : List Char} {e : Expr} (h : Writes .primary xs e) :
    Writes .comparison xs e := by
  have hproduct : Writes (.chained .product) xs e := @Writes.operand .product xs e (.unsigned h)
  exact .uncompared (@Writes.operand .sum xs e hproduct)

/-- Space at the end of a condition is the space in front of the parenthesis after it. -/
theorem parse?_conjunctionText {first second : String} {e e' : Expr}
    (hfirst : Expr.parse? first = some e) (hsecond : Expr.parse? second = some e') :
    Expr.parse? (conjunctionText first second) = some (.binary .and e e') := by
  rcases ((recognizes_conditions first).1 e).mp hfirst with ⟨xs, b, htext, hb, hxs⟩
  rcases ((recognizes_conditions second).1 e').mp hsecond with ⟨ys, b', htext', hb', hys⟩
  refine ((recognizes_conditions _).1 _).mpr ?_
  have hleft := (Writes.parens blank_nil hxs hb).comparison_of_primary
  have hright := (Writes.parens blank_nil hys hb').comparison_of_primary
  have hboth := @Writes.chain .conjunction .and _ _ _ _ _ List.mem_cons_self
    (@Writes.operand .conjunction _ _ hleft) blank_nil hright
  refine ⟨_, [], ?_, blank_nil, @Writes.operand .disjunction _ _ hboth⟩
  simp [conjunctionText, htext, htext', BinaryOp.symbol]

variable {env : Environment} {text first second : String} {e e' : Expr}

theorem run_conditionHandler_holds (h : Expr.parse? text = some e) :
    ((conditionHandler : ConditionHandler Id).holds env text).run = e.holds env := by
  simp only [conditionHandler, isBlank_eq_false_of_parse? h, h, Bool.false_eq_true, if_false]
  exact run_ofExcept _

theorem run_standard_holds (h : Expr.parse? text = some e) :
    ((Registry.standard : Registry Id).holds env text).run = e.holds env := by
  have hfind : (Registry.standard : Registry Id).conditions.find? (·.recognizes text) =
      some conditionHandler := by
    simp [Registry.standard, conditionHandler, h]
  unfold Registry.holds
  rw [hfind]
  exact run_conditionHandler_holds h

/-- Whether two expressions hold, the second looked at only if the first holds, when booleans
    are asked for in the name of an operator. -/
def bothAs (operator : String) (env : Environment) (e e' : Expr) : Except EvalError Bool := do
  if ← expectBool operator (← e.eval env) then expectBool operator (← e'.eval env)
  else return false

/-- Guards are asked for booleans in the name of guards. -/
theorem run_standard_bothHold (hfirst : Expr.parse? first = some e)
    (hsecond : Expr.parse? second = some e') :
    ((Registry.standard : Registry Id).bothHold env first second).run =
      bothAs "guard" env e e' := by
  have hguards : bothAs "guard" env e e' =
      e.holds env >>= fun b => if b = true then e'.holds env else pure false :=
    (bind_assoc _ _ _).symm
  have hrun : ((Registry.standard : Registry Id).holds env first).run = e.holds env :=
    run_standard_holds hfirst
  rw [hguards]
  unfold Registry.bothHold
  cases hholds : e.holds env with
  | error err =>
      rw [run_bind_of_error (hrun.trans hholds)]
      rfl
  | ok b =>
      rw [run_bind_of_ok (hrun.trans hholds)]
      cases b with
      | true => exact run_standard_holds hsecond
      | false => rfl

/-- A conjunction asks for them in its own name. -/
theorem holds_and_eq : (Expr.binary .and e e').holds env = bothAs "&&" env e e' := by
  unfold Expr.holds bothAs
  rw [Expr.eval]
  cases e.eval env with
  | error err => rfl
  | ok v =>
      cases v with
      | bool b =>
          cases b with
          | false => rfl
          | true =>
              cases e'.eval env with
              | error err => rfl
              | ok w => cases w <;> rfl
      | int n => rfl
      | str s => rfl

/-- One of two guards is no guard: the first gives something else than a boolean, or the second
    does when it is looked at. -/
def NoGuard (env : Environment) (e e' : Expr) (v : Value) : Prop :=
  v.type ≠ .bool ∧
    (e.eval env = .ok v ∨ (e.eval env = .ok (.bool true) ∧ e'.eval env = .ok v))

theorem expectBool_of_type_ne {v : Value} (h : v.type ≠ .bool) (operator : String) :
    expectBool operator v = .error (.typeMismatch operator .bool v.type) := by
  cases v with
  | bool b => exact absurd rfl h
  | int n => rfl
  | str s => rfl

theorem NoGuard.bothAs_eq {v : Value} (h : NoGuard env e e' v) (operator : String) :
    bothAs operator env e e' = .error (.typeMismatch operator .bool v.type) := by
  rcases h with ⟨htype, heval | ⟨heval, heval'⟩⟩
  · rw [bothAs, heval]
    show (expectBool operator v >>= _) = _
    rw [expectBool_of_type_ne htype]
    rfl
  · rw [bothAs, heval, heval']
    exact expectBool_of_type_ne htype operator

/-- Between guards it makes no difference in whose name they are asked for booleans. -/
theorem bothAs_eq_of_guards (h : ∀ v, ¬ NoGuard env e e' v) (operator operator' : String) :
    bothAs operator env e e' = bothAs operator' env e e' := by
  unfold bothAs
  cases heval : e.eval env with
  | error err => rfl
  | ok v =>
      cases v with
      | int n => exact absurd ⟨nofun, Or.inl heval⟩ (h (.int n))
      | str s => exact absurd ⟨nofun, Or.inl heval⟩ (h (.str s))
      | bool b =>
          cases b with
          | false => rfl
          | true =>
              cases heval' : e'.eval env with
              | error err => rfl
              | ok w =>
                  cases w with
                  | bool c => rfl
                  | int n => exact absurd ⟨nofun, Or.inr ⟨heval, heval'⟩⟩ (h (.int n))
                  | str s => exact absurd ⟨nofun, Or.inr ⟨heval, heval'⟩⟩ (h (.str s))

/-- Two guards hold exactly if their conjunction does as one text, and fail with the same error.
    The exception is a guard that gives no boolean: the type it should have had and the type it
    has are the same, but the one is reported for a guard and the other for `&&`. -/
theorem bothHold_agrees_conjunctionText (hfirst : Expr.parse? first = some e)
    (hsecond : Expr.parse? second = some e') (env : Environment) :
    Expr.parse? (conjunctionText first second) = some (.binary .and e e') ∧
    (∀ v, NoGuard env e e' v →
      ((Registry.standard : Registry Id).bothHold env first second).run =
          .error (.typeMismatch "guard" .bool v.type) ∧
        ((conditionHandler : ConditionHandler Id).holds env (conjunctionText first second)).run =
          .error (.typeMismatch "&&" .bool v.type)) ∧
    ((∀ v, ¬ NoGuard env e e' v) →
      ((Registry.standard : Registry Id).bothHold env first second).run =
        ((conditionHandler : ConditionHandler Id).holds env
          (conjunctionText first second)).run) := by
  have hparse := parse?_conjunctionText hfirst hsecond
  rw [run_standard_bothHold hfirst hsecond, run_conditionHandler_holds hparse, holds_and_eq]
  refine ⟨hparse, ?_, ?_⟩
  · intro v h
    exact ⟨h.bothAs_eq _, h.bothAs_eq _⟩
  · intro h
    exact bothAs_eq_of_guards h _ _

/-- A comparison with space after it and a variable, which fail alike while `x` is not bound and
    differ in the name of the error while it is a positive integer. -/
theorem positive_agrees_conjunctionText :
    let positive : Expr := .binary (.compare .lt) (.literal (.int 0)) (.var "x")
    let env : Environment := .ofList [("x", .int 1)]
    conjunctionText "0 < x " "x" = "(0 < x )&&(x)" ∧
      Expr.parse? "0 < x " = some positive ∧ Expr.parse? "x" = some (.var "x") ∧
      Expr.parse? (conjunctionText "0 < x " "x") = some (.binary .and positive (.var "x")) ∧
      NoGuard env positive (.var "x") (.int 1) ∧
      ((Registry.standard : Registry Id).bothHold env "0 < x " "x").run =
        .error (.typeMismatch "guard" .bool .int) ∧
      ((conditionHandler : ConditionHandler Id).holds env (conjunctionText "0 < x " "x")).run =
        .error (.typeMismatch "&&" .bool .int) ∧
      ((Registry.standard : Registry Id).bothHold .empty "0 < x " "x").run =
        ((conditionHandler : ConditionHandler Id).holds .empty
          (conjunctionText "0 < x " "x")).run := by
  intro positive env
  have hfirst : Expr.parse? "0 < x " = some positive := by decide +kernel
  have hsecond : Expr.parse? "x" = some (.var "x") := by decide +kernel
  have hno : NoGuard env positive (.var "x") (.int 1) :=
    ⟨nofun, Or.inr ⟨by decide +kernel, by decide +kernel⟩⟩
  have hunset : positive.eval .empty = .error (.unboundVariable "x") := by decide +kernel
  have hguards : ∀ v, ¬ NoGuard .empty positive (.var "x") v := by
    rintro v ⟨-, heval | ⟨heval, -⟩⟩
    · cases hunset.symm.trans heval
    · cases hunset.symm.trans heval
  have hbound := bothHold_agrees_conjunctionText hfirst hsecond env
  have hunbound := bothHold_agrees_conjunctionText hfirst hsecond .empty
  exact ⟨by decide +kernel, hfirst, hsecond, hbound.1, hno, (hbound.2.1 _ hno).1,
    (hbound.2.1 _ hno).2, hunbound.2.2 hguards⟩

end Conditions

section Actions

/-- The last character of a text that is no space. -/
def lastMark? (text : String) : Option Char :=
  text.toList.reverse.find? (!isSpace ·)

theorem lastMark?_eq_semicolon {text : String} {xs b : List Char}
    (htext : text.toList = xs ++ (";".toList ++ b)) (hb : Blank b) :
    lastMark? text = some ';' := by
  have hspace : b.reverse.find? (!isSpace ·) = none := by
    rw [List.find?_eq_none]
    intro c hc
    rw [hb c (List.mem_reverse.mp hc)]
    exact Bool.false_ne_true
  rw [lastMark?, htext, List.reverse_append, List.reverse_append, List.find?_append,
    List.find?_append, hspace]
  rfl

/-- Statements may be followed by statements, if a semicolon stands between them. -/
theorem WritesStatements.append {xs b ys : List Char} {ss ts : List Statement}
    (h : WritesStatements xs ss) (hb : Blank b) (hrest : WritesStatements ys ts) :
    WritesStatements (xs ++ (b ++ (";".toList ++ ys))) (ss ++ ts) := by
  induction h with
  | one h => exact .cons h hb hrest
  | cons h hb' _ ih =>
      have hall := WritesStatements.cons h hb' ih
      simp only [List.append_assoc] at hall ⊢
      exact hall

/-- An action that does something and does not end in a semicolon is its statements and nothing
    else. -/
theorem isText_writesStatements {text : String} {ss : List Statement}
    (h : Statement.parse? text = some ss) (hss : ss ≠ []) (hlast : lastMark? text ≠ some ';') :
    IsText WritesStatements text ss := by
  rcases ((recognizes_actions text).1 ss).mp h with ⟨xs, b, htext, hb, hxs⟩
  cases hxs with
  | empty => exact absurd rfl hss
  | plain hstatements => exact ⟨xs, b, htext, hb, hstatements⟩
  | @closed ys b' _ hstatements hb' =>
      have hsemicolon : text.toList = (ys ++ b') ++ (";".toList ++ b) := by
        rw [htext]
        simp only [List.append_assoc]
      exact absurd (lastMark?_eq_semicolon hsemicolon hb) hlast

/-- Texts of statements with semicolons between them are a text of all their statements: the
    space at the end of one is the space in front of the semicolon after it. -/
theorem isText_intercalate {texts : List String} {sss : List (List Statement)}
    (h : List.Forall₂ (IsText WritesStatements) texts sss) (hne : texts ≠ []) :
    IsText WritesStatements (String.intercalate ";" texts) sss.flatten := by
  induction h with
  | nil => exact absurd rfl hne
  | @cons text ss texts sss hfirst hrest ih =>
      cases hrest with
      | nil =>
          rw [String.intercalate_singleton, List.flatten_singleton]
          exact hfirst
      | cons hsecond hmore =>
          rcases hfirst with ⟨xs, b, htext, hb, hxs⟩
          rcases ih (List.cons_ne_nil _ _) with ⟨ys, b', htexts, hb', hys⟩
          refine ⟨_, b', ?_, hb', hxs.append hb hys⟩
          rw [String.intercalate_cons_of_ne_nil (List.cons_ne_nil _ _), String.toList_append,
            String.toList_append, htext, htexts]
          simp only [List.append_assoc]

/-- Actions one after the other do what their statements do one after the other. -/
theorem run_standard_runInitialization {texts : List String} {sss : List (List Statement)}
    (h : List.Forall₂ (fun text ss => Statement.parse? text = some ss) texts sss)
    (env : Environment) :
    ((Registry.standard : Registry Id).runInitialization env texts).run =
      Statement.run sss.flatten env := by
  induction h generalizing env with
  | nil => rfl
  | @cons text ss texts sss hparse _ ih =>
      have hafter : Statement.run (ss ++ sss.flatten) env =
          Statement.run ss env >>= Statement.run sss.flatten :=
        List.foldlM_append
      have heffect : ((Registry.standard : Registry Id).effect env text).run =
          (Statement.run ss env).map some :=
        run_standard_effect hparse
      rw [List.flatten_cons, hafter]
      cases hrun : Statement.run ss env with
      | error err =>
          rw [hrun] at heffect
          exact Registry.run_runInitialization_cons_of_stopsAt (Or.inl heffect)
      | ok mid =>
          rw [hrun] at heffect
          rw [Registry.run_runInitialization_cons_of_some heffect]
          exact ih mid

/-- Actions that are run one after the other are one action, when semicolons are put between
    them: it is read as all their statements, and it has their effect or fails as they do. It
    may end in a semicolon as any action may. -/
theorem effect_intercalate_eq_runInitialization {texts : List String}
    {sss : List (List Statement)} (hne : texts ≠ [])
    (hparse : List.Forall₂ (fun text ss => Statement.parse? text = some ss) texts sss)
    (hss : ∀ ss ∈ sss, ss ≠ []) (hlast : ∀ text ∈ texts, lastMark? text ≠ some ';') :
    ∀ joined ∈ [String.intercalate ";" texts, String.intercalate ";" texts ++ ";"],
      Statement.parse? joined = some sss.flatten ∧
      ∀ env, ((Registry.standard : Registry Id).effect env joined).run =
        ((Registry.standard : Registry Id).runInitialization env texts).run.map some := by
  have hstatements : List.Forall₂ (IsText WritesStatements) texts sss := by
    have hzip := List.forall₂_iff_zip.mp hparse
    refine List.forall₂_iff_zip.mpr ⟨hzip.1, ?_⟩
    intro text ss hpair
    have hmem := List.of_mem_zip hpair
    exact isText_writesStatements (hzip.2 hpair) (hss ss hmem.2) (hlast text hmem.1)
  rcases isText_intercalate hstatements hne with ⟨xs, b, htext, hb, hxs⟩
  intro joined hjoined
  have hread : Statement.parse? joined = some sss.flatten := by
    refine ((recognizes_actions joined).1 _).mpr ?_
    rcases List.mem_pair.mp hjoined with rfl | rfl
    · exact ⟨xs, b, htext, hb, .plain hxs⟩
    · refine ⟨_, [], ?_, blank_nil, .closed hxs hb⟩
      rw [String.toList_append, htext, List.append_assoc, List.append_nil]
  refine ⟨hread, ?_⟩
  intro env
  rw [run_standard_effect hread, run_standard_runInitialization hparse]

/-- Two actions with space at both sides of the semicolon between them, and a semicolon inside
    the second. -/
theorem assignments_effect_intercalate :
    let texts := ["x := 1 ", " skip; y := x"]
    let sss : List (List Statement) :=
      [[.assign "x" (.literal (.int 1))], [.skip, .assign "y" (.var "x")]]
    String.intercalate ";" texts = "x := 1 ; skip; y := x" ∧
      List.Forall₂ (fun text ss => Statement.parse? text = some ss) texts sss ∧
      (∀ ss ∈ sss, ss ≠ []) ∧ (∀ text ∈ texts, lastMark? text ≠ some ';') ∧
      ∀ joined ∈ [String.intercalate ";" texts, String.intercalate ";" texts ++ ";"],
        Statement.parse? joined = some sss.flatten ∧
        ∀ env, ((Registry.standard : Registry Id).effect env joined).run =
          ((Registry.standard : Registry Id).runInitialization env texts).run.map some := by
  intro texts sss
  have hparse : List.Forall₂ (fun text ss => Statement.parse? text = some ss) texts sss :=
    .cons (by decide +kernel) (.cons (by decide +kernel) .nil)
  have hss : ∀ ss ∈ sss, ss ≠ [] := by decide
  have hlast : ∀ text ∈ texts, lastMark? text ≠ some ';' := by decide +kernel
  exact ⟨by decide +kernel, hparse, hss, hlast,
    effect_intercalate_eq_runInitialization (List.cons_ne_nil _ _) hparse hss hlast⟩

end Actions

end Script

end Interleaving
