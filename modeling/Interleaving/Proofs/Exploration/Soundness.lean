import Interleaving.Proofs.Exploration.Portrait

/-!
# Nothing Is Invented

However a search ends, and whatever its limits were, what it leaves behind belongs
to the state space: the states are reachable, each transition is a step of the
state space, and an action is there because some transition has it. `Within` says
this. It is less than a portrait, which also says what must be there, but it
holds in the middle of an expansion as well, and it is all that is needed to carry
an invariant of the state space over to what was found.

## Main definitions

* `TransitionSystem.Within`: A system has nothing that the state space does not have.
* `Explore.found?`: What an exploration has found.

## Theorems

* `Dynamics.Reachable.invariant`: What the starts have and steps keep, all have.
* `Progress.exists_leads`: Every recorded transition is a step.
* `Dynamics.within_of_explore`: Every exploration stays within its state space.
-/

namespace Interleaving

variable {σ ι : Type}

/-- A property of the starts that no step destroys is one of all reachable states. -/
theorem Dynamics.Reachable.invariant {d : Dynamics Id σ ι} {p : σ → Prop}
    (hstart : ∀ s, d.Starts s → p s) (hstep : ∀ s action t, p s → d.Leads s action t → p t) {s : σ}
    (h : d.Reachable s) : p s := by
  rcases h with ⟨n, hn⟩
  induction hn with
  | start hs => exact hstart _ hs
  | step _ hst ih => exact hstep _ _ _ ih hst

/-- What an exploration has found, if it found something. -/
def Explore.found? (x : Explore Id σ (Option (Exploration σ))) : Option (Exploration σ) :=
  match x.run with
  | .ok found? => found?
  | .error _ => none

theorem Explore.run_of_found? {x : Explore Id σ (Option (Exploration σ))} {found : Exploration σ}
    (h : x.found? = some found) : x.run = .ok (some found) := by
  unfold found? at h
  split at h
  · next found? hrun => rw [hrun, h]
  · cases h

/-- A system has nothing that the state space does not have. -/
structure TransitionSystem.Within [DecidableEq σ] (system : TransitionSystem σ String String)
    (d : Dynamics Id σ ι) : Prop where
  reachable : ∀ s ∈ system.states, d.Reachable s
  leads : ∀ step ∈ system.resolvedTransitions,
    step.source ∈ system.states ∧ d.Leads step.source step.action step.target
  mem_actions_iff : ∀ action, action ∈ system.actions ↔
    ∃ step ∈ system.resolvedTransitions, step.action = action
  labelsOf?_iff : ∀ s ∈ system.states, ∃ labels, system.labelsOf? s = some labels ∧
    ∀ p, p ∈ labels ↔ p ∈ d.labels s

variable {d : Dynamics Id σ ι} {system : TransitionSystem σ String String} {k : Nat}
  {part : List ι}

/-- Every transition is a step, as long as the state `k` was expanded along inputs that
    it has. -/
theorem Progress.exists_leads (h : Progress d system k part)
    (hpart : ∀ s, system.state? k = some s →
      ∀ input ∈ part, ∃ inputs, (d.inputs s).run = .ok inputs ∧ input ∈ inputs)
    {step : Transition Nat String} (hstep : step ∈ system.transitions) :
    ∃ s t, system.state? step.source = some s ∧ system.state? step.target = some t ∧
      d.Leads s step.action t := by
  rcases step with ⟨id, action, target⟩
  rcases TransitionSystem.exists_state?_of_lt (h.source_lt _ hstep) with ⟨s, hs⟩
  -- Both for an expanded state and for `k` the transitions are those of inputs it has.
  have hrecorded : ∃ recorded, Records d system id s recorded ∧
      ∀ input ∈ recorded, ∃ inputs, (d.inputs s).run = .ok inputs ∧ input ∈ inputs := by
    rcases Nat.lt_or_eq_of_le (h.source_le _ hstep) with hlt | heq
    · rcases h.expanded id s hlt hs with ⟨inputs, hinputs, hrec⟩
      exact ⟨inputs, hrec, fun _ hinput => ⟨inputs, hinputs, hinput⟩⟩
    · simp only at heq hs
      rw [heq] at hs ⊢
      exact ⟨part, h.current s hs, hpart s hs⟩
  rcases hrecorded with ⟨recorded, hrec, hinputs⟩
  rcases (hrec.mem_transitions_iff action target).mp hstep with
    ⟨input, hinput, haction, t, hnext, htarget⟩
  rcases hinputs input hinput with ⟨inputs, hrun, hmem⟩
  exact ⟨s, t, hs, htarget, inputs, hrun, input, hmem, haction, hnext⟩

variable [DecidableEq σ]

/-- What a search has come to, with its labels, is within the state space. -/
theorem Labelled.within {found : TransitionSystem σ String String}
    (hlabelled : Labelled d system.states.toList.zipIdx system found)
    (h : Progress d system k part)
    (hpart : ∀ s, system.state? k = some s →
      ∀ input ∈ part, ∃ inputs, (d.inputs s).run = .ok inputs ∧ input ∈ inputs)
    (hreach : ∀ s ∈ system.states, d.Reachable s) : found.Within d where
  reachable := by
    rw [hlabelled.states_eq]
    exact hreach
  leads := by
    rw [hlabelled.eq_with]
    intro step hstep
    rcases TransitionSystem.mem_resolvedTransitions_iff.mp hstep with
      ⟨source, target, hstep, hsource, htarget⟩
    rcases h.exists_leads hpart hstep with ⟨s, t, hs, ht, hst⟩
    cases hs.symm.trans hsource
    cases ht.symm.trans htarget
    exact ⟨TransitionSystem.mem_states_of_state? hsource, hst⟩
  mem_actions_iff := by
    rw [hlabelled.eq_with]
    intro action
    refine (h.mem_actions_iff action).trans ?_
    constructor
    · intro haction
      rcases haction with ⟨step, hstep, haction⟩
      rcases h.exists_leads hpart hstep with ⟨s, t, hs, ht, -⟩
      exact ⟨⟨s, step.action, t⟩, TransitionSystem.mem_resolvedTransitions_iff.mpr
        ⟨step.source, step.target, hstep, hs, ht⟩, haction⟩
    · intro haction
      rcases haction with ⟨step, hstep, haction⟩
      rcases TransitionSystem.mem_resolvedTransitions_iff.mp hstep with
        ⟨source, target, hstep, -, -⟩
      exact ⟨_, hstep, haction⟩
  labelsOf?_iff := by
    rw [hlabelled.states_eq]
    intro s hs
    exact hlabelled.labelsOf?_of_empty h.labels_eq hs

/-- Between levels nothing is recorded of the next state. -/
theorem AtLevel.within {found : TransitionSystem σ String String} {n lo : Nat}
    (h : AtLevel d system n lo)
    (hlabelled : Labelled d system.states.toList.zipIdx system found) : found.Within d := by
  refine hlabelled.within h.toProgress ?_ ?_
  · intro s _ input hinput
    exact absurd hinput List.not_mem_nil
  · intro s hs
    exact ((h.mem_states_iff s).mp hs).reachable

/-- Whatever the limits are and however the search ends, what an exploration finds is within
    the state space. -/
theorem Dynamics.within_of_explore {limits : Limits} {budget : Nat} {found : Exploration σ}
    (h : (d.explore limits budget).run = .ok (some found)) : found.system.Within d := by
  rcases explore_cases h with ⟨ended, hended, -, -, -, hlabelled⟩
  cases hended with
  | complete hlevel => exact hlevel.within hlabelled
  | depthLimit hlevel _ _ => exact hlevel.within hlabelled
  | stateLimit hover =>
      rcases hover with ⟨k, -, s, part, input, rest, t, hexp, hs, hinputs, -, -, -⟩
      refine hlabelled.within hexp.toProgress ?_ fun s hs => (hexp.met s hs).reachable
      intro s' hs' input' hinput'
      cases hs.symm.trans hs'
      exact ⟨_, hinputs, List.mem_append_left _ hinput'⟩

end Interleaving
