import Interleaving.Proofs.ChannelSystem.Renumbering
import Interleaving.Proofs.Exploration.Comparison

/-!
# Explorations in Another Order of the Processes

The moves of a state in the new order of the processes are those in the old order,
renumbered. So where both orders can be explored, they are explored alike: the
reachable states of one are those of the other with their locations rearranged, by
induction along the runs, and what leads from state to state is the same.

That both can be explored has to be asked for. The new order may fail where the old one
does not, and it may run the initialization actions to a different environment.

## Main definitions

* `ChannelSystem.BothExplorable`: Two orders that can be explored.
* `ChannelSystem.RenumberedFindings`: What two explorations have in common.

## Theorems

* `ChannelSystem.mem_moves_renumber_iff`: The moves of a state in the new order.
* `ChannelSystem.BothExplorable.reachable_iff`: The reachable states in the new order.
* `ChannelSystem.moves_and_explore_renumber`: Moves and explorations in the new order.
-/

namespace Interleaving

/-- Without limits an exploration is complete, and the transition system is a portrait
    of all that can be reached. -/
theorem Dynamics.explore_unbounded {σ ι : Type} [DecidableEq σ] {d : Dynamics Id σ ι}
    {budget : Nat} {found : Exploration σ}
    (h : (d.explore .unbounded budget).run = .ok (some found)) :
    found.outcome = .complete ∧ found.system.Portrays d d.Reachable d.Reachable := by
  rcases explore_cases h with ⟨ended, hended, -, houtcome, -, hlabelled⟩
  rw [houtcome]
  cases hended with
  | complete hlevel => exact ⟨rfl, hlevel.portrays_reachable hlabelled⟩
  | depthLimit _ _ hlimit => cases hlimit
  | stateLimit hover => exact absurd rfl hover.maxStates_ne_none

namespace ChannelSystem

variable {L : Type} {n : Nat}

theorem forall₂_renumber_iff {c : ChannelSystem L} {s : SystemState L}
    (hc : c.processes.length = n) (hs : s.locations.length = n) (π : Equiv.Perm (Fin n)) :
    List.Forall₂ (fun l g => l ∈ g.initial) (s.renumber π).locations (c.renumber π).processes ↔
      List.Forall₂ (fun l (g : ProgramGraph L) => l ∈ g.initial) s.locations c.processes := by
  refine ⟨?_, forall₂_rearrange hs π⟩
  intro h
  have hback := forall₂_rearrange (length_rearrange hs π) π.symm h
  simp only [renumber, rearrange_symm hs π, rearrange_symm hc π] at hback
  exact hback

theorem fits_renumber {c : ChannelSystem L} {s : SystemState L} (hc : c.processes.length = n)
    (hs : s.locations.length = n) (π : Equiv.Perm (Fin n)) :
    (s.renumber π).Fits (c.renumber π) := by
  rw [SystemState.Fits, SystemState.renumber, renumber, length_rearrange hs π,
    length_rearrange hc π]

/-- Lists of states without repetition, one with what the other has, renumbered. -/
theorem perm_map_renumber {states states' : List (SystemState L)} {π : Equiv.Perm (Fin n)}
    (hnodup : states.Nodup) (hnodup' : states'.Nodup)
    (hlength : ∀ s ∈ states, s.locations.length = n)
    (h : ∀ t, t ∈ states' ↔ ∃ s ∈ states, t = s.renumber π) :
    states'.Perm (states.map (·.renumber π)) := by
  have hmap : (states.map (·.renumber π)).Nodup := by
    refine hnodup.map_on ?_
    intro s hs t ht heq
    exact SystemState.renumber_injective (hlength s hs) (hlength t ht) heq
  rw [List.perm_ext_iff_of_nodup hnodup' hmap]
  intro t
  simp only [h t, List.mem_map, eq_comm]

variable [DecidableEq L] {c : ChannelSystem L} {r : Registry Id} {s t : SystemState L}
  {π : Equiv.Perm (Fin n)} {moves : List (Move L)}

/-- The moves in the new order are the moves in the old one, renumbered. -/
theorem mem_moves_renumber_iff (hr : r.Swaps) (hc : c.processes.length = n)
    (hs : s.locations.length = n)
    (h : ((c.renumber π).moves r (s.renumber π)).run = .ok moves) {move : Move L} :
    move ∈ moves ↔
      ∃ k t, c.Takes r s k t ∧ move = ⟨t.renumber π, (k.renumber π).action⟩ := by
  rw [mem_moves_iff_takes (fits_renumber hc hs π) h]
  constructor
  · intro hmove
    rcases hmove with ⟨k, htakes, haction⟩
    rcases takes_of_renumber hr hc hs htakes with ⟨k', t', htakes', hk, hnext⟩
    refine ⟨k', t', htakes', ?_⟩
    rw [← hnext, ← hk, ← haction]
  · intro hmove
    rcases hmove with ⟨k, t, htakes, rfl⟩
    exact ⟨k.renumber π, htakes.renumber hr hc hs π, rfl⟩

/-- A state leads along the moves it has. -/
theorem leads_iff_mem_moves (h : (c.moves r s).run = .ok moves) {action : String} :
    (c.dynamics r).Leads s action t ↔ ⟨t, action⟩ ∈ moves := by
  constructor
  · intro hleads
    rcases hleads with ⟨moves', hmoves', ⟨next, action'⟩, hmove, haction, hnext⟩
    cases haction
    cases hnext
    have heq : moves' = moves := Except.ok.inj (hmoves'.symm.trans h)
    rw [← heq]
    exact hmove
  · intro hmove
    exact ⟨moves, h, ⟨t, action⟩, hmove, rfl, rfl⟩

/-- If both orders make the same environment, runs start in the same states. -/
theorem starts_renumber_iff (hc : c.processes.length = n) {env : Environment}
    (henv : (r.runInitialization .empty c.initializationActions).run = .ok env)
    (henv' : (r.runInitialization .empty (c.renumber π).initializationActions).run = .ok env) :
    ((c.renumber π).dynamics r).Starts t ↔ ∃ s, (c.dynamics r).Starts s ∧ t = s.renumber π := by
  simp only [starts_iff, henv, henv']
  constructor
  · intro h
    rcases h with ⟨hstart, hlocations⟩
    have ht : t.locations.length = n := by
      rw [hlocations.length_eq]
      exact length_rearrange hc π
    have hback : t = (t.renumber π.symm).renumber π := (SystemState.renumber_symm ht π.symm).symm
    refine ⟨t.renumber π.symm, ⟨hstart, ?_⟩, hback⟩
    rw [hback, forall₂_renumber_iff hc (length_rearrange ht π.symm)] at hlocations
    exact hlocations
  · intro h
    rcases h with ⟨s, ⟨hstart, hlocations⟩, rfl⟩
    have hs : s.locations.length = n := by
      rw [hlocations.length_eq, hc]
    exact ⟨hstart, (forall₂_renumber_iff hc hs π).mpr hlocations⟩

/-- Both orders can be explored: they make the same environment, and every state that
    can be reached has its moves. -/
structure BothExplorable (c : ChannelSystem L) (r : Registry Id) (π : Equiv.Perm (Fin n)) :
    Prop where
  size_eq : c.processes.length = n
  swaps : r.Swaps
  initialization : ∃ env,
    (r.runInitialization .empty c.initializationActions).run = .ok env ∧
    (r.runInitialization .empty (c.renumber π).initializationActions).run = .ok env
  moves : ∀ s, (c.dynamics r).Reachable s → ∃ moves, (c.moves r s).run = .ok moves
  moves_renumber : ∀ s, ((c.renumber π).dynamics r).Reachable s →
    ∃ moves, ((c.renumber π).moves r s).run = .ok moves

namespace BothExplorable

theorem starts_iff (h : c.BothExplorable r π) :
    ((c.renumber π).dynamics r).Starts t ↔ ∃ s, (c.dynamics r).Starts s ∧ t = s.renumber π := by
  rcases h.initialization with ⟨env, henv, henv'⟩
  exact starts_renumber_iff h.size_eq henv henv'

theorem leads_iff (h : c.BothExplorable r π) (hs : (c.dynamics r).Reachable s)
    {action : String} :
    (c.dynamics r).Leads s action t ↔ ∃ k, c.Takes r s k t ∧ action = k.action := by
  rcases h.moves s hs with ⟨moves, hmoves⟩
  rw [leads_iff_mem_moves hmoves, mem_moves_iff_takes (fits_of_reachable hs) hmoves]

theorem leads_renumber_iff (h : c.BothExplorable r π) (hs : (c.dynamics r).Reachable s)
    (hs' : ((c.renumber π).dynamics r).Reachable (s.renumber π)) {action : String} :
    ((c.renumber π).dynamics r).Leads (s.renumber π) action t ↔
      ∃ k t', c.Takes r s k t' ∧ t = t'.renumber π ∧ action = (k.renumber π).action := by
  rcases h.moves_renumber _ hs' with ⟨moves, hmoves⟩
  have hlength : s.locations.length = n := (fits_of_reachable hs).trans h.size_eq
  rw [leads_iff_mem_moves hmoves, mem_moves_renumber_iff h.swaps h.size_eq hlength hmoves]
  simp only [Move.mk.injEq]

/-- What can be reached in the new order is what can be reached in the old one. Each
    direction is an induction along the run, in which the other order keeps step. -/
theorem reachable_iff (h : c.BothExplorable r π) :
    ((c.renumber π).dynamics r).Reachable t ↔
      ∃ s, (c.dynamics r).Reachable s ∧ t = s.renumber π := by
  constructor
  · intro ht
    rcases ht with ⟨m, hm⟩
    induction hm with
    | start hstart =>
        rcases h.starts_iff.mp hstart with ⟨s, hs, rfl⟩
        exact ⟨s, ⟨0, .start hs⟩, rfl⟩
    | step hs hst ih =>
        -- The state before the step is a renumbered one, and so the step is, too.
        rcases ih with ⟨s, hreach, rfl⟩
        rcases (h.leads_renumber_iff hreach ⟨_, hs⟩).mp hst with ⟨k, t', htakes, rfl, -⟩
        have hleads := (h.leads_iff hreach).mpr ⟨k, htakes, rfl⟩
        rcases hreach with ⟨m, hm⟩
        exact ⟨t', ⟨m + 1, hm.step hleads⟩, rfl⟩
  · intro ht
    rcases ht with ⟨s, ⟨m, hm⟩, rfl⟩
    induction hm with
    | start hstart => exact ⟨0, .start (h.starts_iff.mpr ⟨_, hstart, rfl⟩)⟩
    | step hs hst ih =>
        rcases (h.leads_iff ⟨_, hs⟩).mp hst with ⟨k, htakes, -⟩
        have hleads := (h.leads_renumber_iff ⟨_, hs⟩ ih).mpr ⟨k, _, htakes, rfl, rfl⟩
        rcases ih with ⟨m, hm⟩
        exact ⟨m + 1, hm.step hleads⟩

end BothExplorable

/-- Two explorations found the same up to the numbers of the processes. A transition of
    one and the transition of the other belong to the same parts. -/
structure RenumberedFindings (c : ChannelSystem L) (r : Registry Id) (π : Equiv.Perm (Fin n))
    (found found' : Exploration (SystemState L)) : Prop where
  states_perm : found'.system.states.toList.Perm
    (found.system.states.toList.map (·.renumber π))
  initialStates_perm : found'.system.initialStates.Perm
    (found.system.initialStates.map (·.renumber π))
  mem_resolvedTransitions_iff : ∀ step, step ∈ found.system.resolvedTransitions ↔
    ∃ s k t, s ∈ found.system.states ∧ c.Takes r s k t ∧ step = ⟨s, k.action, t⟩
  mem_resolvedTransitions_renumber_iff : ∀ step, step ∈ found'.system.resolvedTransitions ↔
    ∃ s k t, s ∈ found.system.states ∧ c.Takes r s k t ∧
      step = ⟨s.renumber π, (k.renumber π).action, t.renumber π⟩
  labelsOf?_iff : ∀ s ∈ found.system.states, ∃ labels labels',
    found.system.labelsOf? s = some labels ∧
      found'.system.labelsOf? (s.renumber π) = some labels' ∧ ∀ p, p ∈ labels ↔ p ∈ labels'
  mem_propositions_iff : ∀ p, p ∈ found.system.propositions ↔ p ∈ found'.system.propositions

/-- Two portraits of all that can be reached, one for each order. -/
theorem BothExplorable.renumberedFindings (h : c.BothExplorable r π)
    {found found' : Exploration (SystemState L)}
    (hportrait : found.system.Portrays (c.dynamics r) (c.dynamics r).Reachable
      (c.dynamics r).Reachable)
    (hportrait' : found'.system.Portrays ((c.renumber π).dynamics r)
      ((c.renumber π).dynamics r).Reachable ((c.renumber π).dynamics r).Reachable) :
    c.RenumberedFindings r π found found' where
  states_perm := by
    refine perm_map_renumber hportrait.states_nodup hportrait'.states_nodup ?_ ?_
    · intro s hs
      exact (fits_of_reachable ((hportrait.mem_states_iff s).mp hs)).trans h.size_eq
    · intro t
      refine (hportrait'.mem_states_iff t).trans (h.reachable_iff.trans ?_)
      exact exists_congr fun s => and_congr_left fun _ => (hportrait.mem_states_iff s).symm
  initialStates_perm := by
    refine perm_map_renumber hportrait.initialStates_nodup hportrait'.initialStates_nodup ?_ ?_
    · intro s hs
      have hstart := (hportrait.mem_initialStates_iff s).mp hs
      exact (fits_of_reachable ⟨0, .start hstart⟩).trans h.size_eq
    · intro t
      rw [hportrait'.mem_initialStates_iff, h.starts_iff]
      exact exists_congr fun s => and_congr_left fun _ => (hportrait.mem_initialStates_iff s).symm
  mem_resolvedTransitions_iff := by
    intro step
    rw [hportrait.mem_resolvedTransitions_iff]
    constructor
    · intro hstep
      rcases step with ⟨s, action, t⟩
      rcases (h.leads_iff hstep.1).mp hstep.2 with ⟨k, htakes, haction⟩
      refine ⟨s, k, t, (hportrait.mem_states_iff s).mpr hstep.1, htakes, ?_⟩
      rw [← haction]
    · intro hstep
      rcases hstep with ⟨s, k, t, hs, htakes, rfl⟩
      have hreach := (hportrait.mem_states_iff s).mp hs
      exact ⟨hreach, (h.leads_iff hreach).mpr ⟨k, htakes, rfl⟩⟩
  mem_resolvedTransitions_renumber_iff := by
    intro step
    rw [hportrait'.mem_resolvedTransitions_iff]
    constructor
    · intro hstep
      rcases step with ⟨s', action, t'⟩
      rcases hstep with ⟨hs', hleads⟩
      rcases h.reachable_iff.mp hs' with ⟨s, hs, rfl⟩
      rcases (h.leads_renumber_iff hs hs').mp hleads with ⟨k, t, htakes, rfl, rfl⟩
      exact ⟨s, k, t, (hportrait.mem_states_iff s).mpr hs, htakes, rfl⟩
    · intro hstep
      rcases hstep with ⟨s, k, t, hs, htakes, rfl⟩
      have hreach := (hportrait.mem_states_iff s).mp hs
      have hreach' := h.reachable_iff.mpr ⟨s, hreach, rfl⟩
      exact ⟨hreach', (h.leads_renumber_iff hreach hreach').mpr ⟨k, t, htakes, rfl, rfl⟩⟩
  labelsOf?_iff := by
    intro s hs
    have hreach := (hportrait.mem_states_iff s).mp hs
    rcases hportrait.labelsOf?_iff s hreach with ⟨labels, hlabels, hmem⟩
    rcases hportrait'.labelsOf?_iff _ (h.reachable_iff.mpr ⟨s, hreach, rfl⟩) with
      ⟨labels', hlabels', hmem'⟩
    refine ⟨labels, labels', hlabels, hlabels', ?_⟩
    intro p
    rw [hmem p, hmem' p]
    -- Labels are about the environment, which is not rearranged.
    rfl
  mem_propositions_iff := by
    intro p
    rw [hportrait.mem_propositions_iff, hportrait'.mem_propositions_iff]
    constructor
    · intro hp
      rcases hp with ⟨s, hs, hp⟩
      exact ⟨s.renumber π, h.reachable_iff.mpr ⟨s, hs, rfl⟩, hp⟩
    · intro hp
      rcases hp with ⟨t, ht, hp⟩
      rcases h.reachable_iff.mp ht with ⟨s, hs, rfl⟩
      exact ⟨s, hs, hp⟩

/-- In whatever order the processes are numbered, the moves of a state are the same: they
    are taken by the same processes along the same edges, and the texts of two partners
    change places exactly if the partners do. If the initialization actions make the same
    environment in both orders and both are explored without limits, the two transition
    systems correspond. -/
theorem moves_and_explore_renumber (c : ChannelSystem L) (π : Equiv.Perm (Fin c.size)) :
    let r : Registry Id := Registry.standard
    (∀ s moves moves', s.Fits c → (c.moves r s).run = .ok moves →
      ((c.renumber π).moves r (s.renumber π)).run = .ok moves' →
        (∀ move, move ∈ moves ↔ ∃ k t, c.Takes r s k t ∧ move = ⟨t, k.action⟩) ∧
        ∀ move, move ∈ moves' ↔
          ∃ k t, c.Takes r s k t ∧ move = ⟨t.renumber π, (k.renumber π).action⟩) ∧
    ∀ env budget budget' found found',
      (r.runInitialization .empty c.initializationActions).run = .ok env →
      (r.runInitialization .empty (c.renumber π).initializationActions).run = .ok env →
      ((c.dynamics r).explore .unbounded budget).run = .ok (some found) →
      (((c.renumber π).dynamics r).explore .unbounded budget').run = .ok (some found') →
      c.RenumberedFindings r π found found' := by
  intro r
  constructor
  · intro s moves moves' hs hmoves hmoves'
    refine ⟨?_, fun move => mem_moves_renumber_iff Registry.standard_swaps rfl hs hmoves'⟩
    intro move
    rw [mem_moves_iff_takes hs hmoves]
    constructor
    · intro h
      rcases h with ⟨k, htakes, haction⟩
      refine ⟨k, move.next, htakes, ?_⟩
      rw [← haction]
    · intro h
      rcases h with ⟨k, t, htakes, rfl⟩
      exact ⟨k, htakes, rfl⟩
  · intro env budget budget' found found' henv henv' hrun hrun'
    -- An exploration that ends well has found the moves of every reachable state.
    have hportrait := (Dynamics.explore_unbounded hrun).2
    have hportrait' := (Dynamics.explore_unbounded hrun').2
    have hboth : c.BothExplorable r π :=
      { size_eq := rfl
        swaps := Registry.standard_swaps
        initialization := ⟨env, henv, henv'⟩
        moves := by
          intro s hs
          rcases hportrait.answers s hs with ⟨moves, hmoves, -⟩
          exact ⟨moves, hmoves⟩
        moves_renumber := by
          intro s hs
          rcases hportrait'.answers s hs with ⟨moves, hmoves, -⟩
          exact ⟨moves, hmoves⟩ }
    exact hboth.renumberedFindings hportrait hportrait'

/-- A process that sends a number or counts on, and one that waits for a number. -/
def handover : ChannelSystem String where
  processes :=
    [⟨"giver", .ofList ["on", "off"], .ofList ["on"],
        [⟨"on", "", "c!n+1", "off"⟩, ⟨"on", "n<2", "n:=n+1", "on"⟩], [["n:=1"]]⟩,
      ⟨"taker", .ofList ["on", "off"], .ofList ["on"], [⟨"on", "", "c?m", "off"⟩], []⟩]

/-- With the taker first, the text of the handover is the other way round. -/
theorem handover_renumber :
    let r : Registry Id := Registry.standard
    let π : Equiv.Perm (Fin handover.size) := (Equiv.swap 0 1 : Equiv.Perm (Fin 2))
    let env := Environment.empty.insert "n" (.int 1)
    let start : SystemState String := ⟨["on", "on"], env⟩
    let moves : List (Move String) :=
      [⟨⟨["off", "off"], env.insert "m" (.int 2)⟩, "c!n+1|c?m"⟩,
        ⟨⟨["on", "on"], env.insert "n" (.int 2)⟩, "n:=n+1"⟩]
    let moves' : List (Move String) :=
      [⟨⟨["off", "off"], env.insert "m" (.int 2)⟩, "c?m|c!n+1"⟩,
        ⟨⟨["on", "on"], env.insert "n" (.int 2)⟩, "n:=n+1"⟩]
    ((handover.moves r start).run = .ok moves ∧
      ((handover.renumber π).moves r (start.renumber π)).run = .ok moves' ∧
      ∀ move, move ∈ moves' ↔ ∃ k t, handover.Takes r start k t ∧
        move = ⟨t.renumber π, (k.renumber π).action⟩) ∧
    ∃ found found', ((handover.dynamics r).explore .unbounded 4).run = .ok (some found) ∧
      (((handover.renumber π).dynamics r).explore .unbounded 4).run = .ok (some found') ∧
      handover.RenumberedFindings r π found found' := by
  intro r π env start moves moves'
  have hmoves : (handover.moves r start).run = .ok moves :=
    run_eq_ok_of_toOption (by decide +kernel)
  have hmoves' : ((handover.renumber π).moves r (start.renumber π)).run = .ok moves' :=
    run_eq_ok_of_toOption (by decide +kernel)
  have henv : (r.runInitialization .empty handover.initializationActions).run = .ok env :=
    run_eq_ok_of_toOption (by decide +kernel)
  have henv' :
      (r.runInitialization .empty (handover.renumber π).initializationActions).run = .ok env :=
    run_eq_ok_of_toOption (by decide +kernel)
  have hending : ((handover.dynamics r).explore .unbounded 4).ending? = some (.complete, 3) := by
    decide +kernel
  have hending' : (((handover.renumber π).dynamics r).explore .unbounded 4).ending? =
      some (.complete, 3) := by
    decide +kernel
  rcases Explore.exists_of_ending? hending with ⟨found, hrun, -, -⟩
  rcases Explore.exists_of_ending? hending' with ⟨found', hrun', -, -⟩
  have h := moves_and_explore_renumber handover π
  exact ⟨⟨hmoves, hmoves', (h.1 start moves moves' rfl hmoves hmoves').2⟩,
    found, found', hrun, hrun', h.2 env 4 4 found found' henv henv' hrun hrun'⟩

end ChannelSystem

end Interleaving
