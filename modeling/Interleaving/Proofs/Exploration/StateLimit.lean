import Interleaving.Proofs.Exploration.Growth
import Interleaving.Proofs.Exploration.Portrait

/-!
# A Search That Is Full

The state limit ends a search wherever it happens to be, in the middle of a level
and in the middle of the inputs of a state. What is left then is still in order.
There is one state `k` at which the search stopped: the states before it are
expanded, it is expanded itself as far as its first inputs go, and nothing is
recorded for the states after it. The first input that is not recorded leads to a
state that is not there, and that state would have been one too many.

Where the search stopped is known by distance as well. The state `k` belongs to the
level that was being expanded, so all states up to that level are there.

## Theorems

* `Labelled.records`: Labelling leaves the transitions alone.
* `Dynamics.size_eq_max_of_statesReached`: How many states there are.
* `explore_stateLimit_cuts_expansion`: What an exploration has found when it is full.
-/

namespace Interleaving

variable {σ ι : Type} {d : Dynamics Id σ ι} {limits : Limits}

theorem Labelled.records {pairs : List (σ × Nat)}
    {system system' : TransitionSystem σ String String} (h : Labelled d pairs system system')
    {id : Nat} {s : σ} {inputs : List ι}
    (hrec : Records d system id s inputs) : Records d system' id s inputs := by
  rw [h.eq_with]
  exact ⟨hrec.target_mem, hrec.mem_transitions_iff⟩

/-- There are as many states as the limit allows, or as many as there were to begin
    with. -/
theorem Dynamics.size_eq_max_of_statesReached [DecidableEq σ] {budget n : Nat} {starts : List σ}
    {system : TransitionSystem σ String String} {ended : Exploration σ}
    (hmem : ∀ s, s ∈ system.states ↔ s ∈ starts) (hlimits : limits.maxStates = some n)
    (hlevels : (d.levels limits budget 0 (List.range' 0 (system.states.size - 0)) system).run =
      .ok (some ended))
    (hreached : limits.statesReached ended.system.states.size = true) :
    ended.system.states.size = max n starts.dedup.length := by
  have hgrows := levels_grows hlevels
  have hle := hgrows.size_le_max hlimits
  have hge := hgrows.size_le
  have hn : n ≤ ended.system.states.size := by
    rw [Limits.statesReached, hlimits, Limits.reached, decide_eq_true_iff] at hreached
    exact hreached
  rw [TransitionSystem.size_eq_dedup_length hmem] at hle hge
  omega

/-- When the state limit ends an exploration, there are exactly as many states as it
    allows, or as there are initial states if these are more. The search stopped at
    one state: those before it are expanded, it is itself as far as a proper part of
    its inputs, and those after it are not at all. The input it stopped at leads to a
    state that was not kept. That state `k` is as far away as the depth says, all
    states up to this distance are there, and every state that is there is reachable
    and has its own labels. -/
theorem explore_stateLimit_cuts_expansion [DecidableEq σ] (d : Dynamics Id σ ι) (limits : Limits)
    (n budget : Nat) (found : Exploration σ) (hlimits : limits.maxStates = some n)
    (h : (d.explore limits budget).run = .ok (some found))
    (hfull : found.outcome = .stateLimit) :
    (∃ starts, d.initial.run = .ok starts ∧
      found.system.states.size = max n starts.dedup.length) ∧
    (∃ k s part input rest t, found.system.state? k = some s ∧ d.IsDistance found.depth s ∧
      (∀ id u, id < k → found.system.state? id = some u →
        ∃ inputs, (d.inputs u).run = .ok inputs ∧ Records d found.system id u inputs) ∧
      (d.inputs s).run = .ok (part ++ input :: rest) ∧ Records d found.system k s part ∧
      (d.next s input).run = .ok t ∧ d.Reachable t ∧ t ∉ found.system.states ∧
      ∀ step ∈ found.system.transitions, step.source ≤ k) ∧
    (∀ m ≤ found.depth, ∀ s, d.IsDistance m s → s ∈ found.system.states) ∧
    ∀ s ∈ found.system.states, d.Reachable s ∧
      ∃ labels, found.system.labelsOf? s = some labels ∧ ∀ p, p ∈ labels ↔ p ∈ d.labels s := by
  rcases Dynamics.explore_stages h with
    ⟨starts, system, ended, hstarts, hentered, hmem, hlevels, houtcome, hdepth, hlabelled⟩
  have hstart : ∀ s, d.Starts s ↔ s ∈ system.states := by
    intro s
    rw [Dynamics.starts_iff_of_run hstarts, hmem s]
  have hended := ((AtLevel.of_entered hentered hstart).levels hlevels).1
  rw [hfull] at houtcome
  rw [hdepth]
  cases hended with
  | complete _ => cases houtcome
  | depthLimit _ _ _ => cases houtcome
  | @stateLimit search depth bound hover =>
      rcases hover with
        ⟨k, hk, s, part, input, rest, t, hexp, hs, hinputs, hnext, ht, hreached⟩
      have hdist : d.IsDistance depth s := hexp.isDistance hk hs
      have hinput : input ∈ part ++ input :: rest := List.mem_append_right _ List.mem_cons_self
      have hreach : d.Reachable t :=
        ⟨depth + 1, hdist.1.step ⟨_, hinputs, input, hinput, rfl, hnext⟩⟩
      have hstate : ∀ id, found.system.state? id = search.system.state? id := by
        intro id
        rw [TransitionSystem.state?, hlabelled.states_eq, TransitionSystem.state?]
      refine ⟨⟨starts, hstarts, ?_⟩, ⟨k, s, part, input, rest, t, ?_⟩, ?_, ?_⟩
      · rw [hlabelled.states_eq]
        exact Dynamics.size_eq_max_of_statesReached hmem hlimits hlevels hreached
      · refine ⟨(hstate k).trans hs, hdist, ?_, hinputs, hlabelled.records (hexp.current s hs),
          hnext, hreach, ?_, ?_⟩
        · intro id u hid hu
          rcases hexp.expanded id u hid ((hstate id).symm.trans hu) with ⟨inputs, hinputs, hrec⟩
          exact ⟨inputs, hinputs, hlabelled.records hrec⟩
        · rw [hlabelled.states_eq]
          exact ht
        · rw [hlabelled.transitions_eq]
          exact hexp.source_le
      · intro m hm u hu
        rw [hlabelled.states_eq]
        exact hexp.mem_states_of_isDistance hm hu
      · intro u hu
        rw [hlabelled.states_eq] at hu
        exact ⟨(hexp.met u hu).reachable, hlabelled.labelsOf?_of_empty hexp.labels_eq hu⟩

/-- With room for two states the relay stops at its second state, which has a way
    back to the first one and a way on to a third. -/
theorem relay_cuts_expansion :
    ∃ found, (Table.relay.explore ⟨none, some 2⟩ 2).run = .ok (some found) ∧
      found.outcome = .stateLimit ∧ found.depth = 1 ∧
      found.system.states.size = max 2 ["a", "a"].dedup.length ∧
      ∃ k s part input rest t, found.system.state? k = some s ∧ Table.relay.IsDistance 1 s ∧
        (Table.relay.inputs s).run = .ok (part ++ input :: rest) ∧
        Records Table.relay found.system k s part ∧
        (Table.relay.next s input).run = .ok t ∧ t ∉ found.system.states ∧
        ∀ step ∈ found.system.transitions, step.source ≤ k := by
  have hending : Explore.ending? (Table.relay.explore ⟨none, some 2⟩ 2) =
      some (.stateLimit, 1) := by
    decide +kernel
  rcases Explore.exists_of_ending? hending with ⟨found, hrun, houtcome, hdepth⟩
  rcases explore_stateLimit_cuts_expansion Table.relay ⟨none, some 2⟩ 2 2 found rfl hrun houtcome
    with ⟨⟨starts, hstarts, hsize⟩, ⟨k, s, part, input, rest, t, hs, hdist, -, hinputs, hrec,
      hnext, -, ht, hsource⟩, -, -⟩
  have hlisted : starts = ["a", "a"] := by
    cases hstarts
    rfl
  rw [hlisted] at hsize
  rw [hdepth] at hdist
  exact ⟨found, hrun, houtcome, hdepth, hsize, k, s, part, input, rest, t, hs, hdist, hinputs,
    hrec, hnext, ht, hsource⟩

end Interleaving
