import Interleaving.Proofs.ChannelSystem.Symmetry
import Interleaving.Proofs.Exploration.Soundness
import Interleaving.Proofs.ProgramGraph.Steps
import Interleaving.Proofs.Reordering
import Interleaving.Proofs.Script.Plain

/-!
# Labels Tell Environments Apart

The states of an exploration are labelled with the propositions of their environments.
Under the standard registry these say everything about an environment: each binding has
a label of its own, and two states have the same labels exactly if their environments are
equal.

What is needed is that environments are plain, and that is an invariant of both kinds of
state spaces. Runs start in an environment that initialization actions have made from
nothing, and every step is an action or a rendezvous. An exploration finds only reachable
states, so it holds of all that it has found, whatever its limits were.

## Main definitions

* `TransitionSystem.TellsApart`: The labels of a system tell the environments of its states.

## Theorems

* `ProgramGraph.plain_of_reachable`, `ChannelSystem.plain_of_reachable`: Environments are
  plain.
* `TransitionSystem.Within.tellsApart`: Then labels tell environments apart.
* `explore_labels_tell_environments`: So they do in every exploration.
-/

namespace Interleaving

variable {σ ι L : Type}

/-- The environments of the states bind names of the language to booleans and integers, and
    the labels of the states tell them: each binding has its label, and states with the same
    labels have the same environment. -/
structure TransitionSystem.TellsApart [DecidableEq σ] (system : TransitionSystem σ String String)
    (env : σ → Environment) : Prop where
  plain : ∀ s ∈ system.states, (env s).Plain
  labels_size : ∀ s ∈ system.states, ∃ labels, system.labelsOf? s = some labels ∧
    labels.size = (env s).size
  labels_iff : ∀ s ∈ system.states, ∀ t ∈ system.states, ∀ labels labels',
    system.labelsOf? s = some labels → system.labelsOf? t = some labels' →
      ((∀ p, p ∈ labels ↔ p ∈ labels') ↔ env s = env t)

/-- A system within a state space tells environments apart if the labels of the space are
    the propositions of plain environments. -/
theorem TransitionSystem.Within.tellsApart [DecidableEq σ] {d : Dynamics Id σ ι}
    {system : TransitionSystem σ String String} (h : system.Within d) {env : σ → Environment}
    (hlabels : ∀ s, d.labels s = (env s).propositions)
    (hplain : ∀ s, d.Reachable s → (env s).Plain) : system.TellsApart env where
  plain := by
    intro s hs
    exact hplain s (h.reachable s hs)
  labels_size := by
    intro s hs
    rcases h.labelsOf?_iff s hs with ⟨labels, hfound, hmem⟩
    refine ⟨labels, hfound, ?_⟩
    -- The labels are the propositions, each of them once.
    have hperm : labels.toList.Perm (env s).propositions := by
      refine (List.perm_ext_iff_of_nodup labels.nodup (env s).nodup_propositions).mpr ?_
      intro p
      rw [← hlabels s]
      exact hmem p
    rw [OrderedSet.size, hperm.length_eq, (hplain s (h.reachable s hs)).length_propositions]
  labels_iff := by
    intro s hs t ht labels labels' hfound hfound'
    rcases h.labelsOf?_iff s hs with ⟨own, hown, hmem⟩
    rcases h.labelsOf?_iff t ht with ⟨own', hown', hmem'⟩
    cases hown.symm.trans hfound
    cases hown'.symm.trans hfound'
    simp only [hmem, hmem', hlabels]
    constructor
    · exact (hplain s (h.reachable s hs)).eq_of_mem_propositions_iff (hplain t (h.reachable t ht))
    · intro heq p
      rw [heq]

namespace ProgramGraph

variable {g : ProgramGraph L}

/-- Initialization sequences make plain environments from nothing. -/
theorem plain_of_mem_initialEnvironments {environments : List Environment}
    (h : (g.initialEnvironments (Registry.standard : Registry Id)).run = .ok environments)
    {env : Environment} (henv : env ∈ environments) : env.Plain := by
  unfold initialEnvironments at h
  split at h
  · cases h
    rw [List.mem_singleton.mp henv]
    exact Environment.plain_empty
  · rcases exists_run_of_mem_mapM h henv with ⟨actions, -, hrun⟩
    exact Environment.plain_empty.runInitialization hrun

theorem plain_of_reachable [DecidableEq L] {s : ProgramState L}
    (h : (g.dynamics (Registry.standard : Registry Id)).Reachable s) : s.env.Plain := by
  refine Dynamics.Reachable.invariant (p := fun s => s.env.Plain) ?_ ?_ h
  · intro s hstart
    rcases (starts_iff.mp hstart).2 with ⟨environments, hrun, henv⟩
    exact plain_of_mem_initialEnvironments hrun henv
  · intro s action t hs hst
    rcases (leads_iff.mp hst).2 with ⟨e, -, -, -, -, hafter⟩
    exact hs.effect (Registry.run_effect_of_after? hafter)

end ProgramGraph

namespace ChannelSystem

variable [DecidableEq L] {c : ChannelSystem L} {s t : SystemState L}

/-- A step is an action or a rendezvous, and both leave an environment plain. -/
theorem plain_of_leads (hfits : s.Fits c) {action : String} (hs : s.env.Plain)
    (h : (c.dynamics (Registry.standard : Registry Id)).Leads s action t) : t.env.Plain := by
  rcases ((leads_iff hfits).mp h).2 with ⟨o, -, halone | ⟨p, -, htogether⟩⟩
  · rcases Offer.alone?_eq_some_iff.mp halone with ⟨-, -, env, heffect, hmove⟩
    cases hmove
    exact hs.effect heffect
  · rcases Offer.together?_eq_some_iff.mp htogether with ⟨-, -, -, env, heffect, hmove⟩
    cases hmove
    exact hs.rendezvousEffect heffect

theorem plain_of_reachable
    (h : (c.dynamics (Registry.standard : Registry Id)).Reachable s) : s.env.Plain := by
  -- The moves are known for states with one location for each process, so that is carried
  -- along.
  refine (Dynamics.Reachable.invariant (p := fun s => s.Fits c ∧ s.env.Plain) ?_ ?_ h).2
  · intro s hstart
    rcases starts_iff.mp hstart with ⟨hrun, hlocations⟩
    exact ⟨hlocations.length_eq, Environment.plain_empty.runInitialization hrun⟩
  · intro s action t hs hst
    exact ⟨fits_of_leads hs.1 hst, plain_of_leads hs.1 hs.2 hst⟩

end ChannelSystem

/-- In every exploration of a program graph or of a channel system, whatever its limits and
    however it ended, environments bind only names of the language and only to booleans and
    integers, every state has as many labels as its environment has bindings, and two states
    have the same labels exactly if they have the same environment. -/
theorem explore_labels_tell_environments [DecidableEq L] (limits : Limits) (budget : Nat) :
    (∀ (g : ProgramGraph L) (found : Exploration (ProgramState L)),
      ((g.dynamics (Registry.standard : Registry Id)).explore limits budget).run =
        .ok (some found) → found.system.TellsApart (·.env)) ∧
    ∀ (c : ChannelSystem L) (found : Exploration (SystemState L)),
      ((c.dynamics (Registry.standard : Registry Id)).explore limits budget).run =
        .ok (some found) → found.system.TellsApart (·.env) := by
  constructor
  · intro g found hrun
    exact (Dynamics.within_of_explore hrun).tellsApart (fun _ => rfl)
      fun _ => ProgramGraph.plain_of_reachable
  · intro c found hrun
    exact (Dynamics.within_of_explore hrun).tellsApart (fun _ => rfl)
      fun _ => ChannelSystem.plain_of_reachable

/-- The counter with its number, and the handover with one number or two. -/
theorem counter_and_handover_labels_tell :
    let r : Registry Id := Registry.standard
    (∃ found, ((ProgramGraph.counter.dynamics r).explore .unbounded 5).run = .ok (some found) ∧
      found.system.propositions.toList = ["n = 0", "n = 1", "n = 2", "n = 3"] ∧
      found.system.TellsApart (·.env)) ∧
    ∃ found, ((ChannelSystem.handover.dynamics r).explore .unbounded 5).run = .ok (some found) ∧
      found.system.propositions.toList = ["n = 1", "m = 2", "n = 2", "m = 3"] ∧
      found.system.TellsApart (·.env) := by
  intro r
  have hcounter : ((ProgramGraph.counter.dynamics r).explore .unbounded 5).found?.map
      (·.system.propositions.toList) = some ["n = 0", "n = 1", "n = 2", "n = 3"] := by
    decide +kernel
  have hhandover : ((ChannelSystem.handover.dynamics r).explore .unbounded 5).found?.map
      (·.system.propositions.toList) = some ["n = 1", "m = 2", "n = 2", "m = 3"] := by
    decide +kernel
  rcases Option.map_eq_some_iff.mp hcounter with ⟨found, hfound, hpropositions⟩
  rcases Option.map_eq_some_iff.mp hhandover with ⟨found', hfound', hpropositions'⟩
  have h := explore_labels_tell_environments (L := String) .unbounded 5
  exact ⟨⟨found, Explore.run_of_found? hfound, hpropositions,
      h.1 _ _ (Explore.run_of_found? hfound)⟩,
    found', Explore.run_of_found? hfound', hpropositions',
    h.2 _ _ (Explore.run_of_found? hfound')⟩

end Interleaving
