import Interleaving.Proofs.Exploration.Levels

/-!
# One State Space in Place of Another

A state space may be replaced by another one with the same states and inputs that gives
the same answers. If it gives other answers only where the first one failed, then the
explorations are the same as well, unless the first one has failed in such a place: as long
as it has not, every question of the second is one of the first, and the answer is the same.

So a result of the first exploration is one of the second, and so is a failure that is
not among the excused ones.

## Main definitions

* `Dynamics.KeptBy`: Another state space gives the answers of the first one.

## Theorems

* `Dynamics.KeptBy.follow`, `Dynamics.KeptBy.expand`, `Dynamics.KeptBy.levels`: The loops of a
  search, from the inside out.
* `Dynamics.KeptBy.explore`: The explorations are the same.
-/

namespace Interleaving

variable {σ ι : Type} {p : EvalError → Prop}

/-- An exploration failed because the state space did, with an error which `p` excuses. -/
def ExplorationError.Excused (p : EvalError → Prop) (err : ExplorationError σ String String) :
    Prop :=
  ∃ e, err = .eval e ∧ p e

/-- The second state space gives the answers of the first one, unless that fails with an
    error which `p` excuses. -/
structure Dynamics.KeptBy (p : EvalError → Prop) (d d' : Dynamics Id σ ι) : Prop where
  initial : SameUnless p d.initial d'.initial
  inputs : ∀ s, SameUnless p (d.inputs s) (d'.inputs s)
  next : ∀ s input, SameUnless p (d.next s input) (d'.next s input)
  action_eq : d'.action = d.action
  labels_eq : d'.labels = d.labels

theorem Explore.sameUnless_ask {α : Type} {x y : Eval Id α} (h : SameUnless p x y) :
    SameUnless (ExplorationError.Excused p) (Explore.ask x : Explore Id σ α) (Explore.ask y) := by
  cases h with
  | same h => exact .same (congrArg Explore.ask h)
  | excused hx he => exact .excused (Explore.run_ask_eq_error_iff.mpr ⟨_, rfl, hx⟩) ⟨_, rfl, he⟩

namespace Dynamics.KeptBy

open ExplorationError

variable [DecidableEq σ] {d d' : Dynamics Id σ ι} (h : KeptBy p d d') (limits : Limits)
include h

theorem follow (source : Nat) (s : σ) (inputs : List ι) (search : Search σ) :
    SameUnless (Excused p) (d.follow limits source s inputs search)
      (d'.follow limits source s inputs search) := by
  induction inputs generalizing search with
  | nil => exact .refl _
  | cons input rest ih =>
      rw [Dynamics.follow, Dynamics.follow, h.action_eq]
      refine (Explore.sameUnless_ask (h.next s input)).bind fun target => ?_
      -- A step is recorded without asking the state space.
      refine .after _ fun search => ?_
      exact .ite (.refl _) (ih search)

theorem expand (frontier : List Nat) (search : Search σ) :
    SameUnless (Excused p) (d.expand limits frontier search)
      (d'.expand limits frontier search) := by
  induction frontier generalizing search with
  | nil => exact .refl _
  | cons id rest ih =>
      rw [Dynamics.expand, Dynamics.expand]
      refine .after _ fun s => ?_
      refine (Explore.sameUnless_ask (h.inputs s)).bind fun inputs => ?_
      refine (h.follow limits id s inputs search).bind fun search => ?_
      exact .ite (.refl _) (ih search)

theorem levels (budget depth : Nat) (frontier : List Nat)
    (system : TransitionSystem σ String String) :
    SameUnless (Excused p) (d.levels limits budget depth frontier system)
      (d'.levels limits budget depth frontier system) := by
  induction budget generalizing depth frontier system with
  | zero =>
      rw [Dynamics.levels.eq_def, Dynamics.levels.eq_def d']
      cases frontier with
      | nil => exact .refl _
      | cons id rest => exact .refl _
  | succ budget ih =>
      rw [Dynamics.levels.eq_def, Dynamics.levels.eq_def d']
      cases frontier with
      | nil => exact .refl _
      | cons id rest =>
          refine .ite (.refl _) ?_
          refine (h.expand limits (id :: rest) ⟨system, [], false⟩).bind fun search => ?_
          exact .ite (.refl _) (ih (depth + 1) search.fresh search.system)

/-- The explorations of the two are the same, unless the first one fails with an error which
    `p` excuses. -/
theorem explore (budget : Nat) :
    SameUnless (Excused p) (d.explore limits budget) (d'.explore limits budget) := by
  -- Labels are given without a failure, so they have to be the same from the beginning.
  have hlabels : d'.labelStates = d.labelStates := by
    funext system
    rw [labelStates, labelStates, h.labels_eq]
  rw [Dynamics.explore, Dynamics.explore, hlabels]
  refine (Explore.sameUnless_ask h.initial).bind fun starts => ?_
  refine .after _ fun entered => ?_
  exact (h.levels limits budget 0 entered.2 entered.1).before _

end Dynamics.KeptBy

end Interleaving
