import Interleaving.Proofs.Computation
import Interleaving.Proofs.Reachability
import Interleaving.Proofs.TransitionSystem

/-!
# How Far a Search Has Come

The search expands states in the order of their numbers. At any moment there is
a number `k` such that the states below it are expanded, the state `k` itself is
expanded as far as some of its inputs, and nothing has been recorded for the
states after it. `Progress` says this of a transition system, together with
what never changes: which states are initial, and that there are no labels yet.
It does not depend on levels or limits, so it holds in the middle of a level
just as it holds at its end.

A transition system grows in two ways only, by a new state and by a transition
that leaves the state `k`. The proofs follow that: `Records` is the part that
concerns one state, and each of its lemmas is about one of the two.

## Main definitions

* `Records`: The transitions of a state are those of a list of inputs.
* `Progress`: The states below a number are expanded, and that one in part.

## Theorems

* `Progress.withState`: A new state does not undo progress.
* `Progress.withStep`: A recorded input is progress.
* `Progress.advance`: With its last input a state is expanded.
* `Progress.mem_transitions_iff`: Between two states, what is recorded.
-/

namespace Interleaving

variable {σ ι : Type}

/-- The transitions that leave a state are those of a list of inputs. All of the
    inputs lead somewhere, and the states they lead to are known. -/
structure Records (d : Dynamics Id σ ι) (system : TransitionSystem σ String String) (id : Nat)
    (s : σ) (inputs : List ι) : Prop where
  target_mem : ∀ input ∈ inputs, ∃ t ∈ system.states, (d.next s input).run = .ok t
  mem_transitions_iff : ∀ action target, ⟨id, action, target⟩ ∈ system.transitions ↔
    ∃ input ∈ inputs, d.action input = action ∧
      ∃ t, (d.next s input).run = .ok t ∧ system.state? target = some t

/-- The states below `k` are expanded, and the state `k` as far as the inputs
    `part`. -/
structure Progress (d : Dynamics Id σ ι) (system : TransitionSystem σ String String) (k : Nat)
    (part : List ι) : Prop where
  /-- Labels come last. -/
  labels_eq : system.labels = List.replicate system.states.size .empty
  propositions_eq : system.propositions = .empty
  start_mem : ∀ s, d.Starts s → s ∈ system.states
  mem_initial_iff : ∀ id, id ∈ system.initial ↔ ∃ s, system.state? id = some s ∧ d.Starts s
  mem_actions_iff : ∀ action, action ∈ system.actions ↔
    ∃ step ∈ system.transitions, step.action = action
  source_lt : ∀ step ∈ system.transitions, step.source < system.states.size
  /-- Nothing is recorded for the states after `k`. -/
  source_le : ∀ step ∈ system.transitions, step.source ≤ k
  expanded : ∀ id s, id < k → system.state? id = some s →
    ∃ inputs, (d.inputs s).run = .ok inputs ∧ Records d system id s inputs
  current : ∀ s, system.state? k = some s → Records d system k s part

namespace Records

variable {d : Dynamics Id σ ι} {system : TransitionSystem σ String String} {id : Nat} {s : σ}
  {inputs : List ι}

theorem nil (h : ∀ step ∈ system.transitions, step.source ≠ id) : Records d system id s [] where
  target_mem := by
    intro input hinput
    cases hinput
  mem_transitions_iff := by
    intro action target
    constructor
    · intro hstep
      exact absurd rfl (h _ hstep)
    · intro hinput
      rcases hinput with ⟨input, hinput, -⟩
      cases hinput

/-- A transition of another state does not matter. -/
theorem withStep_of_ne (h : Records d system id s inputs) {step : Transition Nat String}
    (hne : step.source ≠ id) : Records d (system.withStep step) id s inputs where
  target_mem := h.target_mem
  mem_transitions_iff := by
    intro action target
    refine Iff.trans ?_ (h.mem_transitions_iff action target)
    constructor
    · intro hmem
      rcases OrderedSet.mem_insert.mp hmem with heq | hmem
      · exact absurd (congrArg Transition.source heq).symm hne
      · exact hmem
    · intro hmem
      exact OrderedSet.mem_insert.mpr (Or.inr hmem)

variable [DecidableEq σ]

/-- One more transition of the state is one more input. -/
theorem withStep (h : Records d system id s inputs) {input : ι} {t : σ} {target : Nat}
    (hnext : (d.next s input).run = .ok t) (htarget : system.state? target = some t) :
    Records d (system.withStep ⟨id, d.action input, target⟩) id s (inputs ++ [input]) where
  target_mem := by
    intro input' hinput'
    rcases List.mem_append.mp hinput' with hold | hnew
    · exact h.target_mem input' hold
    · rw [List.mem_singleton.mp hnew]
      exact ⟨t, TransitionSystem.mem_states_of_state? htarget, hnext⟩
  mem_transitions_iff := by
    intro action target'
    constructor
    · intro hmem
      rcases OrderedSet.mem_insert.mp hmem with heq | hmem
      · cases heq
        exact ⟨input, List.mem_append_right _ (List.mem_singleton.mpr rfl), rfl, t, hnext, htarget⟩
      · rcases (h.mem_transitions_iff action target').mp hmem with ⟨input', hinput', hrest⟩
        exact ⟨input', List.mem_append_left _ hinput', hrest⟩
    · intro hinput'
      rcases hinput' with ⟨input', hinput', haction, t', hnext', htarget'⟩
      rcases List.mem_append.mp hinput' with hold | hnew
      · exact OrderedSet.mem_insert.mpr (Or.inr ((h.mem_transitions_iff action target').mpr
          ⟨input', hold, haction, t', hnext', htarget'⟩))
      · -- The new input leads to one state, which has one number.
        rw [List.mem_singleton.mp hnew] at haction hnext'
        have ht : t' = t := by
          rw [hnext] at hnext'
          cases hnext'
          rfl
        have hid : target' = target := by
          rw [ht] at htarget'
          exact TransitionSystem.state?_inj htarget' htarget
        rw [← haction, hid]
        exact OrderedSet.mem_insert.mpr (Or.inl rfl)

/-- A new state does not matter: the inputs lead to states that were known. -/
theorem withState (h : Records d system id s inputs) {u : σ} (hu : u ∉ system.states) :
    Records d (system.withState u) id s inputs where
  target_mem := by
    intro input hinput
    rcases h.target_mem input hinput with ⟨t, ht, hnext⟩
    exact ⟨t, TransitionSystem.mem_states_withState.mpr (Or.inr ht), hnext⟩
  mem_transitions_iff := by
    intro action target
    refine (h.mem_transitions_iff action target).trans ?_
    constructor
    · intro hstep
      rcases hstep with ⟨input, hinput, haction, t, hnext, htarget⟩
      exact ⟨input, hinput, haction, t, hnext,
        TransitionSystem.state?_withState_of_state? hu htarget⟩
    · intro hstep
      rcases hstep with ⟨input, hinput, haction, t, hnext, htarget⟩
      refine ⟨input, hinput, haction, t, hnext, ?_⟩
      rcases h.target_mem input hinput with ⟨t', ht', hnext'⟩
      have htt : t' = t := by
        rw [hnext] at hnext'
        cases hnext'
        rfl
      rcases TransitionSystem.mem_states_iff.mp (htt ▸ ht') with ⟨old, hold⟩
      have hid : target = old :=
        TransitionSystem.state?_inj htarget (TransitionSystem.state?_withState_of_state? hu hold)
      rw [hid]
      exact hold

end Records

namespace Progress

variable {d : Dynamics Id σ ι} {system : TransitionSystem σ String String} {k : Nat}
  {part : List ι} {left : σ → Prop}

theorem not_source_of_gt (h : Progress d system k part) {id : Nat} (hid : k < id)
    {step : Transition Nat String} (hstep : step ∈ system.transitions) : step.source ≠ id := by
  have := h.source_le step hstep
  omega

/-- With its last input the state `k` is expanded, and the next one is up. -/
theorem advance (h : Progress d system k part) {s : σ} (hs : system.state? k = some s)
    (hinputs : (d.inputs s).run = .ok part) : Progress d system (k + 1) [] where
  labels_eq := h.labels_eq
  propositions_eq := h.propositions_eq
  start_mem := h.start_mem
  mem_initial_iff := h.mem_initial_iff
  mem_actions_iff := h.mem_actions_iff
  source_lt := h.source_lt
  source_le := by
    intro step hstep
    have := h.source_le step hstep
    omega
  expanded := by
    intro id s' hid hs'
    by_cases hk : id = k
    · rw [hk, hs] at hs'
      cases hs'
      rw [hk]
      exact ⟨part, hinputs, h.current s hs⟩
    · exact h.expanded id s' (by omega) hs'
  current := by
    intro s' _
    exact Records.nil fun step hstep => h.not_source_of_gt (by omega) hstep

theorem mem_initialStates_iff (h : Progress d system k part) (s : σ) :
    s ∈ system.initialStates ↔ d.Starts s := by
  rw [TransitionSystem.mem_initialStates_iff]
  constructor
  · intro hs
    rcases hs with ⟨id, hid, hs⟩
    rcases (h.mem_initial_iff id).mp hid with ⟨s', hs', hstart⟩
    rw [hs, Option.some.injEq] at hs'
    rw [hs']
    exact hstart
  · intro hstart
    rcases TransitionSystem.mem_states_iff.mp (h.start_mem s hstart) with ⟨id, hs⟩
    exact ⟨id, (h.mem_initial_iff id).mpr ⟨s, hs, hstart⟩, hs⟩

/-- The successors of an expanded state are known. -/
theorem exists_target (h : Progress d system k part) {id : Nat} {s t : σ} {action : String}
    (hid : id < k) (hs : system.state? id = some s) (hst : d.Leads s action t) :
    ∃ target, system.state? target = some t := by
  rcases h.expanded id s hid hs with ⟨inputs, hinputs, hrec⟩
  rcases hst with ⟨inputs', hinputs', input, hinput, -, hnext⟩
  rw [hinputs] at hinputs'
  cases hinputs'
  rcases hrec.target_mem input hinput with ⟨t', ht', hnext'⟩
  rw [hnext] at hnext'
  cases hnext'
  exact TransitionSystem.mem_states_iff.mp ht'

/-- Between two states the transitions are the steps that leave the states below
    `k`. -/
theorem mem_transitions_iff (h : Progress d system k []) (id target : Nat) (action : String) :
    ⟨id, action, target⟩ ∈ system.transitions ↔ id < k ∧
      ∃ s t, system.state? id = some s ∧ system.state? target = some t ∧ d.Leads s action t := by
  constructor
  · intro hstep
    rcases TransitionSystem.exists_state?_of_lt (h.source_lt _ hstep) with ⟨s, hs⟩
    have hle : id ≤ k := h.source_le _ hstep
    by_cases hid : id = k
    · -- Nothing is recorded for the state `k` itself.
      rw [hid] at hs hstep
      rcases ((h.current s hs).mem_transitions_iff action target).mp hstep with ⟨input, hinput, -⟩
      cases hinput
    · have hlt : id < k := by omega
      rcases h.expanded id s hlt hs with ⟨inputs, hinputs, hrec⟩
      rcases (hrec.mem_transitions_iff action target).mp hstep with
        ⟨input, hinput, haction, t, hnext, htarget⟩
      exact ⟨hlt, s, t, hs, htarget, inputs, hinputs, input, hinput, haction, hnext⟩
  · intro hstep
    rcases hstep with ⟨hid, s, t, hs, htarget, inputs, hinputs, input, hinput, haction, hnext⟩
    rcases h.expanded id s hid hs with ⟨inputs', hinputs', hrec⟩
    rw [hinputs] at hinputs'
    cases hinputs'
    exact (hrec.mem_transitions_iff action target).mpr
      ⟨input, hinput, haction, t, hnext, htarget⟩

theorem resolve?_isSome (h : Progress d system k []) {step : Transition Nat String}
    (hstep : step ∈ system.transitions) : (system.resolve? step).isSome := by
  rcases step with ⟨id, action, target⟩
  rcases (h.mem_transitions_iff id target action).mp hstep with ⟨-, s, t, hs, ht, -⟩
  rw [Option.isSome_iff_exists]
  exact ⟨⟨s, action, t⟩, TransitionSystem.resolve?_eq_some_iff.mpr ⟨hs, rfl, ht⟩⟩

theorem mem_resolvedTransitions_iff (h : Progress d system k []) (hleft : system.Numbers k left)
    (step : Transition σ String) : step ∈ system.resolvedTransitions ↔
      left step.source ∧ d.Leads step.source step.action step.target := by
  rw [TransitionSystem.mem_resolvedTransitions_iff]
  constructor
  · intro hstep
    rcases hstep with ⟨id, target, hstep, hsource, htarget⟩
    rcases (h.mem_transitions_iff id target step.action).mp hstep with ⟨hid, s, t, hs, ht, hst⟩
    rw [hsource, Option.some.injEq] at hs
    rw [htarget, Option.some.injEq] at ht
    rw [hs, ht]
    exact ⟨(hleft s).mpr ⟨id, hid, hs ▸ hsource⟩, hst⟩
  · intro hstep
    rcases hstep with ⟨hsource, hst⟩
    rcases (hleft step.source).mp hsource with ⟨id, hid, hs⟩
    rcases h.exists_target hid hs hst with ⟨target, ht⟩
    exact ⟨id, target, (h.mem_transitions_iff id target step.action).mpr
      ⟨hid, _, _, hs, ht, hst⟩, hs, ht⟩

/-- An action is there exactly if some transition has it. -/
theorem mem_actions_iff_leads (h : Progress d system k []) (hleft : system.Numbers k left)
    (action : String) : action ∈ system.actions ↔ ∃ s t, left s ∧ d.Leads s action t := by
  rw [h.mem_actions_iff action]
  constructor
  · intro hstep
    rcases hstep with ⟨⟨id, action', target⟩, hstep, haction⟩
    rcases (h.mem_transitions_iff id target action').mp hstep with ⟨hid, s, t, hs, -, hst⟩
    exact ⟨s, t, (hleft s).mpr ⟨id, hid, hs⟩, haction ▸ hst⟩
  · intro hstep
    rcases hstep with ⟨s, t, hs, hst⟩
    rcases (hleft s).mp hs with ⟨id, hid, hs⟩
    rcases h.exists_target hid hs hst with ⟨target, ht⟩
    exact ⟨⟨id, action, target⟩,
      (h.mem_transitions_iff id target action).mpr ⟨hid, s, t, hs, ht, hst⟩, rfl⟩

theorem answers (h : Progress d system k part) (hleft : system.Numbers k left) {s : σ}
    (hs : left s) : ∃ inputs, (d.inputs s).run = .ok inputs ∧
      ∀ input ∈ inputs, ∃ t, (d.next s input).run = .ok t := by
  rcases (hleft s).mp hs with ⟨id, hid, hs⟩
  rcases h.expanded id s hid hs with ⟨inputs, hinputs, hrec⟩
  refine ⟨inputs, hinputs, ?_⟩
  intro input hinput
  rcases hrec.target_mem input hinput with ⟨t, -, hnext⟩
  exact ⟨t, hnext⟩

variable [DecidableEq σ]

/-- A new state does not undo progress. It is none of the initial ones, because
    those were there from the beginning. -/
theorem withState (h : Progress d system k part) (hk : k < system.states.size) {u : σ}
    (hu : u ∉ system.states) : Progress d (system.withState u) k part where
  labels_eq := by
    rw [TransitionSystem.size_withState hu, List.replicate_succ', ← h.labels_eq]
    rfl
  propositions_eq := h.propositions_eq
  start_mem := by
    intro s hs
    exact TransitionSystem.mem_states_withState.mpr (Or.inr (h.start_mem s hs))
  mem_initial_iff := by
    intro id
    refine (h.mem_initial_iff id).trans ?_
    constructor
    · intro hinitial
      rcases hinitial with ⟨s, hid, hs⟩
      exact ⟨s, TransitionSystem.state?_withState_of_state? hu hid, hs⟩
    · intro hinitial
      rcases hinitial with ⟨s, hid, hs⟩
      -- An initial state had a number before, and it keeps it.
      rcases TransitionSystem.mem_states_iff.mp (h.start_mem s hs) with ⟨old, hold⟩
      have heq : id = old :=
        TransitionSystem.state?_inj hid (TransitionSystem.state?_withState_of_state? hu hold)
      exact ⟨s, heq ▸ hold, hs⟩
  mem_actions_iff := h.mem_actions_iff
  source_lt := by
    intro step hstep
    rw [TransitionSystem.size_withState hu]
    have := h.source_lt step hstep
    omega
  source_le := h.source_le
  expanded := by
    intro id s hid hs
    rw [TransitionSystem.state?_withState_of_lt hu (by omega)] at hs
    rcases h.expanded id s hid hs with ⟨inputs, hinputs, hrec⟩
    exact ⟨inputs, hinputs, hrec.withState hu⟩
  current := by
    intro s hs
    rw [TransitionSystem.state?_withState_of_lt hu hk] at hs
    exact (h.current s hs).withState hu

/-- A transition for one more input of the state `k` is progress. -/
theorem withStep (h : Progress d system k part) {s t : σ} {input : ι} {target : Nat}
    (hs : system.state? k = some s) (hnext : (d.next s input).run = .ok t)
    (htarget : system.state? target = some t) :
    Progress d (system.withStep ⟨k, d.action input, target⟩) k (part ++ [input]) where
  labels_eq := h.labels_eq
  propositions_eq := h.propositions_eq
  start_mem := h.start_mem
  mem_initial_iff := h.mem_initial_iff
  mem_actions_iff := by
    intro action
    constructor
    · intro haction
      rcases OrderedSet.mem_insert.mp haction with heq | hold
      · exact ⟨_, OrderedSet.mem_insert.mpr (Or.inl rfl), heq.symm⟩
      · rcases (h.mem_actions_iff action).mp hold with ⟨step, hstep, haction⟩
        exact ⟨step, OrderedSet.mem_insert.mpr (Or.inr hstep), haction⟩
    · intro haction
      rcases haction with ⟨step, hstep, haction⟩
      rcases OrderedSet.mem_insert.mp hstep with heq | hold
      · rw [heq] at haction
        exact OrderedSet.mem_insert.mpr (Or.inl haction.symm)
      · exact OrderedSet.mem_insert.mpr
          (Or.inr ((h.mem_actions_iff action).mpr ⟨step, hold, haction⟩))
  source_lt := by
    intro step hstep
    rcases OrderedSet.mem_insert.mp hstep with heq | hold
    · rw [heq]
      exact TransitionSystem.lt_size_of_state? hs
    · exact h.source_lt step hold
  source_le := by
    intro step hstep
    rcases OrderedSet.mem_insert.mp hstep with heq | hold
    · rw [heq]
    · exact h.source_le step hold
  expanded := by
    intro id s' hid hs'
    rcases h.expanded id s' hid hs' with ⟨inputs, hinputs, hrec⟩
    exact ⟨inputs, hinputs, hrec.withStep_of_ne (show k ≠ id by omega)⟩
  current := by
    intro s' hs'
    have heq : s' = s := Option.some.inj (hs'.symm.trans hs)
    rw [heq]
    exact (h.current s hs).withStep hnext htarget

end Progress

end Interleaving
