import Interleaving.Dynamics.Table
import Interleaving.Proofs.Exploration.Labels
import Interleaving.Proofs.Exploration.Levels

/-!
# What an Exploration Finds

The transition system of an exploration is a portrait of the state space as far
as the search has come: it has exactly the states that are known, and exactly
the steps that leave those among them that were expanded. `Portrays` says this
field by field, with the two sets of states as parameters, so that one lemma,
`AtLevel.portrays`, serves every way in which a search can end between levels.

When the search ends because nothing is left, both sets are the reachable states.
With a depth limit alone they are the states up to the limit and the states
below it, whether or not the limit was needed; the outcome tells which of the
two it was, and the depth counts the levels that are not empty.

## Main definitions

* `TransitionSystem.Portrays`: A part of a state space, written out.
* `Explore.ending?`: How an exploration ended.

## Theorems

* `Dynamics.explore_stages`, `Dynamics.explore_cases`: How an exploration comes about.
* `AtLevel.portrays`, `AtLevel.portrays_distance`: Between levels the system is a
  portrait.
* `explore_complete_portrays_reachable`: A complete exploration finds exactly
  what can be reached.
* `explore_maxDepth_portrays_distance`: A depth limit cuts by distance.
-/

namespace Interleaving

variable {σ ι : Type}

/-- A transition system is a part of a state space, written out: the states with
    `known`, and the steps that leave the states with `left`. -/
structure TransitionSystem.Portrays [DecidableEq σ] (system : TransitionSystem σ String String)
    (d : Dynamics Id σ ι) (known left : σ → Prop) : Prop where
  /-- Each known state is stored once. -/
  states_nodup : system.states.toList.Nodup
  mem_states_iff : ∀ s, s ∈ system.states ↔ known s
  /-- Each state runs start in is initial, once. -/
  initialStates_nodup : system.initialStates.Nodup
  mem_initialStates_iff : ∀ s, s ∈ system.initialStates ↔ d.Starts s
  /-- The numbers in a transition are numbers of states. -/
  resolve?_isSome : ∀ step ∈ system.transitions, (system.resolve? step).isSome
  /-- Each step that leaves a state with `left` is a transition, once. -/
  resolvedTransitions_nodup : system.resolvedTransitions.Nodup
  mem_resolvedTransitions_iff : ∀ step, step ∈ system.resolvedTransitions ↔
    left step.source ∧ d.Leads step.source step.action step.target
  /-- Every input of a state with `left` leads somewhere. -/
  answers : ∀ s, left s → ∃ inputs, (d.inputs s).run = .ok inputs ∧
    ∀ input ∈ inputs, ∃ t, (d.next s input).run = .ok t
  mem_actions_iff : ∀ action, action ∈ system.actions ↔ ∃ s t, left s ∧ d.Leads s action t
  /-- Each known state has its own labels and no others. -/
  labelsOf?_iff : ∀ s, known s → ∃ labels, system.labelsOf? s = some labels ∧
    ∀ p, p ∈ labels ↔ p ∈ d.labels s
  mem_propositions_iff : ∀ p, p ∈ system.propositions ↔ ∃ s, known s ∧ p ∈ d.labels s

/-- How an exploration ended and at which depth, if it found something. -/
def Explore.ending? (x : Explore Id σ (Option (Exploration σ))) : Option (Outcome × Nat) :=
  match x.run with
  | .ok (some found) => some (found.outcome, found.depth)
  | _ => none

theorem Explore.exists_of_ending? {x : Explore Id σ (Option (Exploration σ))} {outcome : Outcome}
    {depth : Nat} (h : Explore.ending? x = some (outcome, depth)) :
    ∃ found, x.run = .ok (some found) ∧ found.outcome = outcome ∧ found.depth = depth := by
  rw [ending?] at h
  split at h
  · next found hrun =>
    cases h
    exact ⟨found, hrun, rfl, rfl⟩
  · cases h

variable [DecidableEq σ] {d : Dynamics Id σ ι} {limits : Limits}

/-- Once it is known where runs start, the initial states are entered and the search
    goes on from there. -/
theorem Dynamics.run_explore_of_starts {starts : List σ} (h : d.initial.run = .ok starts)
    (limits : Limits) (budget : Nat) :
    ∃ system : TransitionSystem σ String String, Entered system ∧
      (∀ s, s ∈ system.states ↔ s ∈ starts) ∧
      (d.explore limits budget).run =
        (d.levels limits budget 0 (List.range' 0 (system.states.size - 0)) system >>= fun
          | none => return none
          | some found => do
            let system ← Explore.enter (d.labelStates found.system)
            return some { found with system }).run := by
  rcases Entered.empty.enterInitial starts with ⟨system, hrun, hentered, -, hstates⟩
  refine ⟨system, hentered, ?_, ?_⟩
  · intro s
    rw [hstates, OrderedSet.mem_foldl_insert]
    exact ⟨fun hs => hs.resolve_left List.not_mem_nil, Or.inr⟩
  · rw [explore, run_bind_of_ok (Explore.run_ask_eq_ok_iff.mpr h),
      run_bind_of_ok (Explore.run_enter_eq_ok_iff.mpr hrun)]
    rfl

/-- The stages of an exploration: initial states are entered, a search ends, and then
    the states are labelled. -/
theorem Dynamics.explore_stages {budget : Nat} {found : Exploration σ}
    (h : (d.explore limits budget).run = .ok (some found)) :
    ∃ (starts : List σ) (system : TransitionSystem σ String String) (ended : Exploration σ),
      d.initial.run = .ok starts ∧ Entered system ∧ (∀ s, s ∈ system.states ↔ s ∈ starts) ∧
      (d.levels limits budget 0 (List.range' 0 (system.states.size - 0)) system).run =
        .ok (some ended) ∧
      found.outcome = ended.outcome ∧ found.depth = ended.depth ∧
      Labelled d ended.system.states.toList.zipIdx ended.system found.system := by
  cases hstarts : d.initial.run with
  | error e =>
      have hask : (Explore.ask d.initial : Explore Id σ (List σ)).run = .error (.eval e) :=
        Explore.run_ask_eq_error_iff.mpr ⟨e, rfl, hstarts⟩
      rw [explore, run_bind_of_error hask] at h
      cases h
  | ok starts =>
      rcases run_explore_of_starts hstarts limits budget with ⟨system, hentered, hmem, hrun⟩
      rw [hrun] at h
      rcases run_bind_eq_ok_iff.mp h with ⟨ended?, hlevels, h⟩
      cases ended? with
      | none =>
          rw [run_pure_eq_ok_iff] at h
          cases h
      | some ended =>
          rcases run_bind_eq_ok_iff.mp h with ⟨labelled, hlabel, h⟩
          rw [Explore.run_enter_eq_ok_iff] at hlabel
          rw [run_pure_eq_ok_iff, Option.some.injEq] at h
          rcases labelStates_eq_ok d ended.system with ⟨labelled', hlabel', hlabelled⟩
          rw [hlabel', Except.ok.injEq] at hlabel
          rw [← h, ← hlabel]
          exact ⟨starts, system, ended, rfl, hentered, hmem, hlevels, rfl, rfl, hlabelled⟩

/-- How an exploration comes about: a search ends, and then the states are
    labelled. -/
theorem Dynamics.explore_cases {budget : Nat} {found : Exploration σ}
    (h : (d.explore limits budget).run = .ok (some found)) :
    ∃ ended : Exploration σ, Ended d limits ended ∧
      (∀ m < ended.depth, limits.depthReached m = false) ∧
      found.outcome = ended.outcome ∧ found.depth = ended.depth ∧
      Labelled d ended.system.states.toList.zipIdx ended.system found.system := by
  rcases explore_stages h with
    ⟨starts, system, ended, hstarts, hentered, hmem, hlevels, houtcome, hdepth, hlabelled⟩
  have hstart : ∀ s, d.Starts s ↔ s ∈ system.states := by
    intro s
    rw [starts_iff_of_run hstarts, hmem s]
  rcases (AtLevel.of_entered hentered hstart).levels hlevels with ⟨hended, hbelow⟩
  exact ⟨ended, hended, fun m hm => hbelow m (Nat.zero_le m) hm, houtcome, hdepth, hlabelled⟩

/-- Between levels the system is a portrait of what was met up to the level, with
    the steps of what was met before it. -/
theorem AtLevel.portrays {system system' : TransitionSystem σ String String} {n lo : Nat}
    (h : AtLevel d system n lo)
    (hlabelled : Labelled d system.states.toList.zipIdx system system') :
    system'.Portrays d (d.Before (n + 1)) (d.Before n) where
  states_nodup := system'.states.nodup
  mem_states_iff := by
    intro s
    rw [hlabelled.states_eq]
    exact h.mem_states_iff s
  initialStates_nodup := system'.initialStates_nodup
  mem_initialStates_iff := by
    rw [hlabelled.eq_with]
    exact h.mem_initialStates_iff
  resolve?_isSome := by
    rw [hlabelled.eq_with]
    intro step hstep
    exact h.resolve?_isSome hstep
  resolvedTransitions_nodup := system'.resolvedTransitions_nodup
  mem_resolvedTransitions_iff := by
    rw [hlabelled.eq_with]
    exact h.mem_resolvedTransitions_iff h.nearer
  answers := by
    intro s hs
    exact h.answers h.nearer hs
  mem_actions_iff := by
    rw [hlabelled.actions_eq]
    exact h.mem_actions_iff_leads h.nearer
  labelsOf?_iff := by
    intro s hs
    exact hlabelled.labelsOf?_of_empty h.labels_eq ((h.mem_states_iff s).mpr hs)
  mem_propositions_iff := by
    intro p
    rw [hlabelled.mem_propositions_iff p, h.propositions_eq]
    constructor
    · intro hp
      rcases hp with hp | ⟨⟨s, id⟩, hpair, hp⟩
      · cases hp
      · have hs : system.state? id = some s := List.mk_mem_zipIdx_iff_getElem?.mp hpair
        exact ⟨s, (h.mem_states_iff s).mp (TransitionSystem.mem_states_of_state? hs), hp⟩
    · intro hp
      rcases hp with ⟨s, hs, hp⟩
      rcases TransitionSystem.mem_states_iff.mp ((h.mem_states_iff s).mpr hs) with ⟨id, hid⟩
      exact Or.inr ⟨(s, id), List.mk_mem_zipIdx_iff_getElem?.mpr hid, hp⟩

theorem TransitionSystem.Portrays.congr {system : TransitionSystem σ String String}
    {known known' left left' : σ → Prop} (h : system.Portrays d known left)
    (hknown : ∀ s, known s ↔ known' s) (hleft : ∀ s, left s ↔ left' s) :
    system.Portrays d known' left' := by
  have hk : known = known' := funext fun s => propext (hknown s)
  have hl : left = left' := funext fun s => propext (hleft s)
  rw [← hk, ← hl]
  exact h

/-- At an empty level nothing is left to be found. -/
theorem AtLevel.portrays_reachable {system system' : TransitionSystem σ String String} {n : Nat}
    (h : AtLevel d system n system.states.size)
    (hlabelled : Labelled d system.states.toList.zipIdx system system') :
    system'.Portrays d d.Reachable d.Reachable := by
  have hbefore := Dynamics.reachable_iff_before_of_stable h.stable
  refine (h.portrays hlabelled).congr ?_ ?_
  · intro s
    rw [hbefore s]
    exact ⟨h.stable s, fun hs => hs.mono (by omega)⟩
  · intro s
    exact (hbefore s).symm

/-- In terms of distances, what was met up to a level. -/
theorem AtLevel.portrays_distance {system system' : TransitionSystem σ String String} {n lo : Nat}
    (h : AtLevel d system n lo)
    (hlabelled : Labelled d system.states.toList.zipIdx system system') :
    system'.Portrays d (fun s => ∃ m ≤ n, d.IsDistance m s)
      (fun s => ∃ m < n, d.IsDistance m s) := by
  refine (h.portrays hlabelled).congr ?_ ?_
  · intro s
    simp only [Dynamics.before_iff_exists_isDistance, Nat.lt_succ_iff]
  · intro s
    exact Dynamics.before_iff_exists_isDistance n s

/-- At an empty level a bound on distances from there on cuts nothing off. -/
theorem AtLevel.portrays_distance_of_le {system system' : TransitionSystem σ String String}
    {n bound : Nat} (h : AtLevel d system n system.states.size) (hle : n ≤ bound)
    (hlabelled : Labelled d system.states.toList.zipIdx system system') :
    system'.Portrays d (fun s => ∃ m ≤ bound, d.IsDistance m s)
      (fun s => ∃ m < bound, d.IsDistance m s) := by
  refine (h.portrays_reachable hlabelled).congr ?_ ?_
  · intro s
    rw [Dynamics.reachable_iff_exists_isDistance]
    exact ⟨fun ⟨m, hm⟩ => ⟨m, Nat.le_trans (Nat.le_of_lt (h.lt_of_isDistance hm)) hle, hm⟩,
      fun ⟨m, _, hm⟩ => ⟨m, hm⟩⟩
  · intro s
    rw [Dynamics.reachable_iff_exists_isDistance]
    exact ⟨fun ⟨m, hm⟩ => ⟨m, Nat.lt_of_lt_of_le (h.lt_of_isDistance hm) hle, hm⟩,
      fun ⟨m, _, hm⟩ => ⟨m, hm⟩⟩

/-- A complete exploration finds exactly what can be reached, whatever its limits
    were. -/
theorem explore_complete_portrays_reachable (d : Dynamics Id σ ι) (limits : Limits) (budget : Nat)
    (found : Exploration σ) (h : (d.explore limits budget).run = .ok (some found))
    (hcomplete : found.outcome = .complete) :
    found.system.Portrays d d.Reachable d.Reachable := by
  rcases Dynamics.explore_cases h with ⟨ended, hended, -, houtcome, -, hlabelled⟩
  rw [hcomplete] at houtcome
  cases hended with
  | complete hlevel => exact hlevel.portrays_reachable hlabelled
  | depthLimit _ _ _ => cases houtcome
  | stateLimit _ => cases houtcome

/-- Three states, with a way back, a start that is listed twice and an edge that
    is there twice. -/
def Table.relay : Dynamics Id String Table.Input :=
  Table.dynamics
    { initial := ["a", "a"]
      edges := [("a", "go", "b"), ("a", "go", "b"), ("b", "back", "a"), ("b", "on", "c")]
      labels := [("b", ["busy"]), ("c", ["busy", "late"])]
      failsInitially := false
      failingStates := []
      failingActions := [] }

/-- The exploration of the relay is complete although there are as many states as
    may be kept. -/
theorem relay_portrays_reachable :
    ∃ found, (Table.relay.explore ⟨none, some 3⟩ 3).run = .ok (some found) ∧
      found.outcome = .complete ∧
      found.system.Portrays Table.relay Table.relay.Reachable Table.relay.Reachable := by
  have hending : Explore.ending? (Table.relay.explore ⟨none, some 3⟩ 3) = some (.complete, 3) := by
    decide +kernel
  rcases Explore.exists_of_ending? hending with ⟨found, hrun, houtcome, -⟩
  exact ⟨found, hrun, houtcome,
    explore_complete_portrays_reachable Table.relay ⟨none, some 3⟩ 3 found hrun houtcome⟩

/-- With a depth limit alone, an exploration finds the states up to the limit and
    the steps that leave the states below it. It ends at the limit exactly if
    there is a state that far away; otherwise it is complete, and its depth is
    the number of levels. -/
theorem explore_maxDepth_portrays_distance (d : Dynamics Id σ ι) (bound budget : Nat)
    (found : Exploration σ) (h : (d.explore ⟨some bound, none⟩ budget).run = .ok (some found)) :
    found.system.Portrays d (fun s => ∃ n ≤ bound, d.IsDistance n s)
        (fun s => ∃ n < bound, d.IsDistance n s) ∧
      (found.outcome = .depthLimit ↔ ∃ s, d.IsDistance bound s) ∧
      (found.outcome = .depthLimit → found.depth = bound) ∧
      (found.outcome ≠ .depthLimit → found.outcome = .complete ∧
        d.distances.encard = found.depth ∧
        ((¬ ∃ s, d.Starts s) → found.depth = 0) ∧
        ((∃ s, d.Starts s) → ∃ n, IsGreatest d.distances n ∧ found.depth = n + 1)) := by
  rcases Dynamics.explore_cases h with ⟨ended, hended, hdepth, houtcome, hfound, hlabelled⟩
  rw [houtcome, hfound]
  -- A search that went further would have expanded the level at the limit.
  have hle : ended.depth ≤ bound := by
    by_contra hgt
    have hreached := hdepth bound (by omega)
    rw [Limits.depthReached, Limits.reached, decide_eq_false_iff_not] at hreached
    exact hreached (Nat.le_refl bound)
  cases hended with
  | @complete system n hlevel =>
      have hnone : ¬ ∃ s, d.IsDistance bound s := by
        intro hbound
        rcases hbound with ⟨s, hs⟩
        exact absurd (hlevel.lt_of_isDistance hs) (Nat.not_lt_of_le hle)
      refine ⟨hlevel.portrays_distance_of_le hle hlabelled, ?_, ?_, ?_⟩
      · constructor
        · intro hlimit
          cases hlimit
        · intro hbound
          exact absurd hbound hnone
      · intro hlimit
        cases hlimit
      · intro _
        exact ⟨rfl, Dynamics.encard_distances_of_eq_Iio hlevel.distances_eq⟩
  | @depthLimit system n lo hlevel hlo hlimit =>
      have hn : n = bound := by
        rw [Limits.depthReached, Limits.reached, decide_eq_true_iff] at hlimit
        exact Nat.le_antisymm hle hlimit
      rw [hn] at hlevel
      refine ⟨hlevel.portrays_distance hlabelled, ?_, ?_, ?_⟩
      · exact ⟨fun _ => hlevel.exists_isDistance hlo, fun _ => rfl⟩
      · intro _
        exact hn
      · intro hother
        exact absurd rfl hother
  | stateLimit hover =>
      -- Without a state limit no state is refused.
      rcases hover with ⟨k, -, s, part, input, rest, t, -, -, -, -, -, hreached⟩
      cases hreached

/-- With the limit one, the relay is cut off before its last state. -/
theorem relay_portrays_distance :
    ∃ found, (Table.relay.explore ⟨some 1, none⟩ 1).run = .ok (some found) ∧
      found.outcome = .depthLimit ∧ found.depth = 1 ∧
      found.system.Portrays Table.relay (fun s => ∃ n ≤ 1, Table.relay.IsDistance n s)
        (fun s => ∃ n < 1, Table.relay.IsDistance n s) := by
  have hending : Explore.ending? (Table.relay.explore ⟨some 1, none⟩ 1) =
      some (.depthLimit, 1) := by
    decide +kernel
  rcases Explore.exists_of_ending? hending with ⟨found, hrun, houtcome, hdepth⟩
  exact ⟨found, hrun, houtcome, hdepth,
    (explore_maxDepth_portrays_distance Table.relay 1 1 found hrun).1⟩

end Interleaving
