import Interleaving.Proofs.Computation

/-!
# What Initialization Makes

A sequence of initialization actions is run one after the other, and each action has to lead
somewhere: one that is disabled fails here as well as one with an error. So a sequence either
goes through to its end and makes an environment, or it has a first action that stops it, and
then its failure is that of this action, whatever comes after it.

## Main definitions

* `Registry.GoesThrough`: Actions that go through one after the other.
* `Registry.StopsAt`: An action that does not go through.

## Theorems

* `Registry.run_runInitialization_cons_of_some`,
  `Registry.run_runInitialization_cons_of_stopsAt`: What the first action does.
* `Registry.run_runInitialization_eq_ok_iff`, `Registry.run_runInitialization_eq_error_iff`:
  What a sequence makes, and the first action that stops it.
-/

namespace Interleaving

namespace Registry

/-- The actions go through one after the other, each one from where the ones before it have
    led. -/
inductive GoesThrough (r : Registry Id) : Environment → List String → Environment → Prop where
  | done (env : Environment) : GoesThrough r env [] env
  | next {env mid out : Environment} {action : String} {rest : List String}
      (heffect : (r.effect env action).run = .ok (some mid)) (hrest : GoesThrough r mid rest out) :
      GoesThrough r env (action :: rest) out

/-- The action fails with an error, or it is disabled, which is an error here. -/
def StopsAt (r : Registry Id) (env : Environment) (action : String) (e : EvalError) : Prop :=
  (r.effect env action).run = .error e ∨
    ((r.effect env action).run = .ok none ∧ e = .inapplicableInitialization action)

variable {r : Registry Id} {env out : Environment} {action : String} {rest : List String}
  {e : EvalError}

/-- The first action leads somewhere, and the others go on from there. -/
theorem run_runInitialization_cons_of_some {mid : Environment}
    (h : (r.effect env action).run = .ok (some mid)) :
    (r.runInitialization env (action :: rest)).run = (r.runInitialization mid rest).run := by
  unfold runInitialization
  rw [List.foldlM_cons]
  exact run_bind_of_ok (run_bind_of_ok h)

/-- The first action stops everything. -/
theorem run_runInitialization_cons_of_stopsAt (h : r.StopsAt env action e) :
    (r.runInitialization env (action :: rest)).run = .error e := by
  unfold runInitialization
  rw [List.foldlM_cons]
  rcases h with hfails | ⟨hdisabled, rfl⟩
  · exact run_bind_of_error (run_bind_of_error hfails)
  · exact run_bind_of_error (run_bind_of_ok hdisabled)

/-- An action that stops does not lead anywhere. -/
theorem StopsAt.ne_some {mid : Environment} (h : r.StopsAt env action e) :
    (r.effect env action).run ≠ .ok (some mid) := by
  intro hmid
  rcases h with hfails | ⟨hdisabled, -⟩
  · cases hmid.symm.trans hfails
  · cases hmid.symm.trans hdisabled

theorem StopsAt.unique {e' : EvalError} (h : r.StopsAt env action e)
    (h' : r.StopsAt env action e') : e = e' := by
  rcases h with hfails | ⟨hdisabled, rfl⟩
  · rcases h' with hfails' | ⟨hdisabled', -⟩
    · cases hfails.symm.trans hfails'
      rfl
    · cases hfails.symm.trans hdisabled'
  · rcases h' with hfails' | ⟨-, rfl⟩
    · cases hdisabled.symm.trans hfails'
    · rfl

theorem effect_cases (r : Registry Id) (env : Environment) (action : String) :
    (∃ mid, (r.effect env action).run = .ok (some mid)) ∨ ∃ e, r.StopsAt env action e := by
  cases heffect : (r.effect env action).run with
  | error e => exact Or.inr ⟨e, Or.inl heffect⟩
  | ok mid? =>
      cases mid? with
      | none => exact Or.inr ⟨_, Or.inr ⟨heffect, rfl⟩⟩
      | some mid => exact Or.inl ⟨mid, rfl⟩

/-- A sequence of initialization actions makes an environment exactly if all of them go
    through. -/
theorem run_runInitialization_eq_ok_iff {actions : List String} :
    (r.runInitialization env actions).run = .ok out ↔ r.GoesThrough env actions out := by
  induction actions generalizing env with
  | nil =>
      constructor
      · intro h
        cases h
        exact .done _
      · intro h
        cases h
        rfl
  | cons action rest ih =>
      rcases r.effect_cases env action with ⟨mid, hmid⟩ | ⟨e, hstops⟩
      · rw [run_runInitialization_cons_of_some hmid, ih]
        constructor
        · exact .next hmid
        · intro h
          cases h with
          | next hmid' hrest =>
              cases hmid.symm.trans hmid'
              exact hrest
      · rw [run_runInitialization_cons_of_stopsAt hstops]
        constructor
        · intro h
          cases h
        · intro h
          cases h with
          | next hmid _ => exact absurd hmid hstops.ne_some

/-- It fails with the error of the first action that does not go through. -/
theorem run_runInitialization_eq_error_iff {actions : List String} :
    (r.runInitialization env actions).run = .error e ↔ ∃ before action after mid,
      actions = before ++ action :: after ∧ r.GoesThrough env before mid ∧
        r.StopsAt mid action e := by
  induction actions generalizing env with
  | nil =>
      constructor
      · intro h
        cases h
      · rintro ⟨before, action, after, mid, hsplit, -, -⟩
        exact absurd hsplit (List.append_ne_nil_of_right_ne_nil before (List.cons_ne_nil _ _)).symm
  | cons first rest ih =>
      -- The prefix that goes through is empty exactly if the first action stops.
      rcases r.effect_cases env first with ⟨mid, hmid⟩ | ⟨e', hstops⟩
      · rw [run_runInitialization_cons_of_some hmid, ih]
        constructor
        · rintro ⟨before, action, after, last, rfl, hbefore, hstop⟩
          exact ⟨first :: before, action, after, last, rfl, .next hmid hbefore, hstop⟩
        · rintro ⟨before, action, after, last, hsplit, hbefore, hstop⟩
          cases hbefore with
          | done =>
              cases hsplit
              exact absurd hmid hstop.ne_some
          | next hmid' hrest =>
              cases hsplit
              cases hmid.symm.trans hmid'
              exact ⟨_, action, after, last, rfl, hrest, hstop⟩
      · rw [run_runInitialization_cons_of_stopsAt hstops, error_eq_error_iff]
        constructor
        · rintro rfl
          exact ⟨[], first, rest, env, rfl, .done env, hstops⟩
        · rintro ⟨before, action, after, last, hsplit, hbefore, hstop⟩
          cases hbefore with
          | done =>
              cases hsplit
              exact hstops.unique hstop
          | next hmid' _ =>
              cases hsplit
              exact absurd hmid' hstops.ne_some

end Registry

end Interleaving
