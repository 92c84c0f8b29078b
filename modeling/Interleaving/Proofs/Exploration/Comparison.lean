import Interleaving.Proofs.Exploration.Failure

/-!
# Comparing Explorations

Two state spaces over the same states may list their initial states and their inputs
in different orders, or describe the inputs differently, and still be the same as far
as runs are concerned. `Dynamics.Agrees` asks for no more than that: runs start in the
same states, the reachable states lead to the same states under the same actions, and
the same questions have answers.

Explorations of such spaces may meet the states in different orders and so number
them differently. They may also meet different failures first. But they have the same
levels. A search without a state limit ends at a level that is told by distances
alone: the first one that is empty or at the depth limit. So both end at the same
one, and one of them fails only if the other does.

## Main definitions

* `Dynamics.Agrees`: Two state spaces with the same runs.
* `Exploration.SameFindings`: The same results up to the numbers of the states.
* `Explore.SameResult`: Both fail, or both find the same.

## Theorems

* `Dynamics.Agrees.isDistance_iff`: The same distances.
* `Dynamics.LastLevel.unique`: The level at which a search ends.
* `Dynamics.Agrees.sameResult`: State spaces with the same runs are explored with
  the same result.
-/

namespace Interleaving

variable {σ ι κ : Type}

/-- Two state spaces with the same runs. What cannot be reached does not matter. -/
structure Dynamics.Agrees (d : Dynamics Id σ ι) (d' : Dynamics Id σ κ) : Prop where
  /-- It can be told where runs start in both or in none. -/
  initial_iff : (∃ starts, d.initial.run = .ok starts) ↔ ∃ starts, d'.initial.run = .ok starts
  starts_iff : ∀ s, d.Starts s ↔ d'.Starts s
  answers_iff : ∀ s, d.Reachable s → (d.Answers s ↔ d'.Answers s)
  leads_iff : ∀ s, d.Reachable s → ∀ action t, d.Leads s action t ↔ d'.Leads s action t
  labels_iff : ∀ s p, p ∈ d.labels s ↔ p ∈ d'.labels s

/-- Two explorations found the same, up to the numbers of the states. -/
structure Exploration.SameFindings [DecidableEq σ] (found found' : Exploration σ) : Prop where
  outcome_eq : found.outcome = found'.outcome
  depth_eq : found.depth = found'.depth
  mem_states_iff : ∀ s, s ∈ found.system.states ↔ s ∈ found'.system.states
  mem_initialStates_iff : ∀ s, s ∈ found.system.initialStates ↔ s ∈ found'.system.initialStates
  mem_resolvedTransitions_iff : ∀ step,
    step ∈ found.system.resolvedTransitions ↔ step ∈ found'.system.resolvedTransitions
  mem_actions_iff : ∀ action, action ∈ found.system.actions ↔ action ∈ found'.system.actions
  mem_propositions_iff : ∀ p, p ∈ found.system.propositions ↔ p ∈ found'.system.propositions
  labelsOf?_iff : ∀ s ∈ found.system.states, ∃ labels labels',
    found.system.labelsOf? s = some labels ∧ found'.system.labelsOf? s = some labels' ∧
      ∀ p, p ∈ labels ↔ p ∈ labels'

/-- If both explorations come to an end, then both fail or both find the same. -/
def Explore.SameResult [DecidableEq σ] (x x' : Explore Id σ (Option (Exploration σ))) : Prop :=
  x.run ≠ .ok none → x'.run ≠ .ok none →
    ((∃ found, x.run = .ok (some found)) ↔ ∃ found', x'.run = .ok (some found')) ∧
    ∀ found found', x.run = .ok (some found) → x'.run = .ok (some found') →
      found.SameFindings found'

namespace Dynamics

variable {d : Dynamics Id σ ι} {d' : Dynamics Id σ κ}

namespace Agrees

/-- Along a run every state is reachable, so the other space has the same run. -/
theorem reachedIn_of_reachedIn (h : d.Agrees d') {n : Nat} {s : σ} (hs : d.ReachedIn n s) :
    d'.ReachedIn n s := by
  induction hs with
  | start hs => exact .start ((h.starts_iff _).mp hs)
  | step hs hst ih => exact ih.step ((h.leads_iff _ ⟨_, hs⟩ _ _).mp hst)

theorem reachedIn_iff (h : d.Agrees d') (n : Nat) (s : σ) :
    d.ReachedIn n s ↔ d'.ReachedIn n s := by
  refine ⟨h.reachedIn_of_reachedIn, ?_⟩
  intro hs
  induction hs with
  | start hs => exact .start ((h.starts_iff _).mpr hs)
  | step _ hst ih => exact ih.step ((h.leads_iff _ ⟨_, ih⟩ _ _).mpr hst)

theorem reachable_iff (h : d.Agrees d') (s : σ) : d.Reachable s ↔ d'.Reachable s := by
  simp only [Reachable, h.reachedIn_iff]

theorem before_iff (h : d.Agrees d') (n : Nat) (s : σ) : d.Before n s ↔ d'.Before n s := by
  simp only [Before, h.reachedIn_iff]

theorem isDistance_iff (h : d.Agrees d') (n : Nat) (s : σ) :
    d.IsDistance n s ↔ d'.IsDistance n s := by
  simp only [IsDistance, h.reachedIn_iff]

theorem symm (h : d.Agrees d') : d'.Agrees d where
  initial_iff := h.initial_iff.symm
  starts_iff := fun s => (h.starts_iff s).symm
  answers_iff := fun s hs => (h.answers_iff s ((h.reachable_iff s).mpr hs)).symm
  leads_iff := fun s hs action t => (h.leads_iff s ((h.reachable_iff s).mpr hs) action t).symm
  labels_iff := fun s p => (h.labels_iff s p).symm

end Agrees

/-- The level at which a search without a state limit ends, and how: the levels before
    it are not empty and below the depth limit, and it is empty or at the limit. -/
structure LastLevel (d : Dynamics Id σ ι) (limits : Limits) (outcome : Outcome) (n : Nat) :
    Prop where
  before : ∀ m < n, limits.depthReached m = false ∧ ∃ s, d.IsDistance m s
  last : (outcome = .complete ∧ ¬ ∃ s, d.IsDistance n s) ∨
    (outcome = .depthLimit ∧ limits.depthReached n = true ∧ ∃ s, d.IsDistance n s)

namespace LastLevel

variable {limits : Limits} {outcome outcome' : Outcome} {n n' : Nat}

theorem not_lt (h : d.LastLevel limits outcome n) (h' : d.LastLevel limits outcome' n') :
    ¬ n < n' := by
  intro hlt
  rcases h'.before n hlt with ⟨hlimit, hoccupied⟩
  rcases h.last with ⟨-, hempty⟩ | ⟨-, hreached, -⟩
  · exact hempty hoccupied
  · rw [hlimit] at hreached
    cases hreached

/-- There is one level at which a search can end, and one way to end there. -/
theorem unique (h : d.LastLevel limits outcome n) (h' : d.LastLevel limits outcome' n') :
    outcome = outcome' ∧ n = n' := by
  have hnn : n = n' := by
    have hle := h.not_lt h'
    have hge := h'.not_lt h
    omega
  subst hnn
  refine ⟨?_, rfl⟩
  rcases h.last with ⟨rfl, hempty⟩ | ⟨rfl, -, hoccupied⟩
  · rcases h'.last with ⟨rfl, -⟩ | ⟨-, -, hoccupied⟩
    · rfl
    · exact absurd hoccupied hempty
  · rcases h'.last with ⟨-, hempty⟩ | ⟨rfl, -, -⟩
    · exact absurd hoccupied hempty
    · rfl

theorem of_agrees (h : d'.LastLevel limits outcome n) (hagrees : d.Agrees d') :
    d.LastLevel limits outcome n where
  before := by
    simp only [hagrees.isDistance_iff]
    exact h.before
  last := by
    simp only [hagrees.isDistance_iff]
    exact h.last

end LastLevel

variable [DecidableEq σ] {limits : Limits}

/-- Without a state limit a search ends at its last level, and the transition system is
    a portrait up to there. -/
theorem explore_lastLevel {budget : Nat} {found : Exploration σ}
    (hlimits : limits.maxStates = none) (h : (d.explore limits budget).run = .ok (some found)) :
    d.LastLevel limits found.outcome found.depth ∧
      found.system.Portrays d (d.Before (found.depth + 1)) (d.Before found.depth) := by
  rcases explore_cases h with ⟨ended, hended, hbelow, houtcome, hdepth, hlabelled⟩
  rw [houtcome, hdepth]
  cases hended with
  | @complete system n hlevel =>
      refine ⟨⟨fun m hm => ⟨hbelow m hm, hlevel.occupied m hm⟩, Or.inl ⟨rfl, ?_⟩⟩,
        hlevel.portrays hlabelled⟩
      intro hoccupied
      rcases hoccupied with ⟨s, hs⟩
      exact Nat.lt_irrefl n (hlevel.lt_of_isDistance hs)
  | @depthLimit system n lo hlevel hlo hlimit =>
      exact ⟨⟨fun m hm => ⟨hbelow m hm, hlevel.occupied m hm⟩,
        Or.inr ⟨rfl, hlimit, hlevel.exists_isDistance hlo⟩⟩, hlevel.portrays hlabelled⟩
  | stateLimit hover => exact absurd hlimits hover.maxStates_ne_none

namespace Agrees

theorem sameFindings (h : d.Agrees d') {budget budget' : Nat} {found found' : Exploration σ}
    (hlimits : limits.maxStates = none)
    (hrun : (d.explore limits budget).run = .ok (some found))
    (hrun' : (d'.explore limits budget').run = .ok (some found')) :
    found.SameFindings found' := by
  rcases explore_lastLevel hlimits hrun with ⟨hlast, hportrait⟩
  rcases explore_lastLevel hlimits hrun' with ⟨hlast', hportrait'⟩
  rcases hlast.unique (hlast'.of_agrees h) with ⟨houtcome, hdepth⟩
  -- The two portraits show the same states, by what was met before the same level.
  rw [← hdepth] at hportrait'
  have hleads : ∀ s action t, d.Before found.depth s ∧ d.Leads s action t ↔
      d'.Before found.depth s ∧ d'.Leads s action t := by
    intro s action t
    rw [← h.before_iff]
    exact and_congr_right fun hs => h.leads_iff s hs.reachable action t
  exact
    { outcome_eq := houtcome
      depth_eq := hdepth
      mem_states_iff := by
        intro s
        rw [hportrait.mem_states_iff, hportrait'.mem_states_iff, h.before_iff]
      mem_initialStates_iff := by
        intro s
        rw [hportrait.mem_initialStates_iff, hportrait'.mem_initialStates_iff, h.starts_iff]
      mem_resolvedTransitions_iff := by
        intro step
        rw [hportrait.mem_resolvedTransitions_iff, hportrait'.mem_resolvedTransitions_iff, hleads]
      mem_actions_iff := by
        intro action
        simp only [hportrait.mem_actions_iff, hportrait'.mem_actions_iff, hleads]
      mem_propositions_iff := by
        intro p
        simp only [hportrait.mem_propositions_iff, hportrait'.mem_propositions_iff, h.before_iff,
          h.labels_iff]
      labelsOf?_iff := by
        intro s hs
        rw [hportrait.mem_states_iff] at hs
        rcases hportrait.labelsOf?_iff s hs with ⟨labels, hlabels, hmem⟩
        rcases hportrait'.labelsOf?_iff s ((h.before_iff _ s).mp hs) with ⟨labels', hlabels', hmem'⟩
        refine ⟨labels, labels', hlabels, hlabels', ?_⟩
        intro p
        rw [hmem p, hmem' p, h.labels_iff] }

/-- If one exploration ends well, the other cannot fail: it would fail at a state that
    the first one has expanded. -/
theorem run_ne_error (h : d.Agrees d') {budget budget' : Nat} {found : Exploration σ}
    (hlimits : limits.maxStates = none)
    (hrun : (d.explore limits budget).run = .ok (some found))
    (err : ExplorationError σ String String) :
    (d'.explore limits budget').run ≠ .error err := by
  intro herr
  rcases explore_error_cases herr with ⟨e, -, hinitial | ⟨n, s, hlimit, hs, hfails⟩⟩
  · rcases explore_stages hrun with ⟨starts, -, -, hstarts, -⟩
    rcases h.initial_iff.mp ⟨starts, hstarts⟩ with ⟨starts', hstarts'⟩
    rw [hstarts'] at hinitial
    cases hinitial
  · have hdist : d.IsDistance n s := (h.isDistance_iff n s).mpr hs
    have hanswers : d.Answers s := answers_of_explore hlimits hrun hlimit hdist
    exact hfails.not_answers ((h.answers_iff s ⟨n, hdist.1⟩).mp hanswers)

theorem exists_found (h : d.Agrees d') {budget budget' : Nat}
    (hlimits : limits.maxStates = none) (hended : (d'.explore limits budget').run ≠ .ok none)
    (hfound : ∃ found, (d.explore limits budget).run = .ok (some found)) :
    ∃ found', (d'.explore limits budget').run = .ok (some found') := by
  rcases hfound with ⟨found, hrun⟩
  cases hrun' : (d'.explore limits budget').run with
  | error err => exact absurd hrun' (h.run_ne_error hlimits hrun err)
  | ok found? =>
      cases found? with
      | none => exact absurd hrun' hended
      | some found' => exact ⟨found', rfl⟩

/-- State spaces with the same runs are explored with the same result. -/
theorem sameResult (h : d.Agrees d') (hlimits : limits.maxStates = none) (budget budget' : Nat) :
    Explore.SameResult (d.explore limits budget) (d'.explore limits budget') := by
  intro hended hended'
  refine ⟨⟨h.exists_found hlimits hended', h.symm.exists_found hlimits hended⟩, ?_⟩
  intro found found' hrun hrun'
  exact h.sameFindings hlimits hrun hrun'

end Agrees

end Dynamics

end Interleaving
