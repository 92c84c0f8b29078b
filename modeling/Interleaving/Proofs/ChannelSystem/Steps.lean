import Interleaving.Proofs.ChannelSystem.Moves
import Interleaving.Proofs.Exploration.Failure
import Mathlib.Data.List.Forall2

/-!
# The Steps of a Channel System

What a channel system does as a state space, read off the offers of its states. Runs
start at one initial location for each process, in the environment that all
initialization actions make. A state leads along an offer that is taken alone, or along
two that are taken together; it answers if nothing fails on the way to these moves.

All this is about states with one location for each process. No other state can be
reached: a move puts a location where there was one before.

## Main definitions

* `SystemState.Fits`: A state with one location for each process.
* `ChannelSystem.Goes`: A process goes along one of its edges.

## Theorems

* `Offer.alone?_eq_some_iff`, `Offer.together?_eq_some_iff`: The two kinds of moves.
* `mem_choices_iff`: Tuples of initial locations.
* `ChannelSystem.mem_offers_iff`: What a state offers.
* `ChannelSystem.starts_iff`, `ChannelSystem.answers_iff`, `ChannelSystem.leads_iff`: The
  state space of a channel system by its offers.
* `ChannelSystem.goes_of_alone?`, `ChannelSystem.goes_of_together?`: Who goes in a move, and
  who stays.
* `ChannelSystem.fits_of_reachable`: Reachable states have one location for each
  process.
-/

namespace Interleaving

variable {L : Type}

/-- The state has one location for each process. -/
def SystemState.Fits (s : SystemState L) (c : ChannelSystem L) : Prop :=
  s.locations.length = c.processes.length

namespace Offer

open ChannelSystem

variable {r : Registry Id} {s : SystemState L} {o p : Offer L} {move : Move L}

theorem alone?_eq_some_iff : o.alone? r s = some move ↔
    r.isOneSided o.edge.action = false ∧ (r.holds s.env o.edge.guard).run = .ok true ∧
      ∃ env, (r.effect s.env o.edge.action).run = .ok (some env) ∧
        move = ⟨⟨s.locations.set o.process o.edge.target, env⟩, o.edge.action⟩ := by
  unfold alone?
  constructor
  · intro h
    split at h
    · next env hside hguard heffect =>
      cases h
      exact ⟨hside, hguard, env, heffect, rfl⟩
    · cases h
  · intro h
    rcases h with ⟨hside, hguard, env, heffect, rfl⟩
    rw [hside, hguard, heffect]

theorem together?_eq_some_iff : o.together? r s p = some move ↔
    Matches r o p ∧ (r.holds s.env o.edge.guard).run = .ok true ∧
      (r.holds s.env p.edge.guard).run = .ok true ∧
      ∃ env, (r.rendezvousEffect s.env (combine o.edge.action p.edge.action)).run =
          .ok (some env) ∧
        move = ⟨⟨(s.locations.set o.process o.edge.target).set p.process p.edge.target, env⟩,
          combine o.edge.action p.edge.action⟩ := by
  unfold together?
  by_cases hmatch : Matches r o p
  · rw [if_pos hmatch]
    constructor
    · intro h
      split at h
      · next env hfirst hsecond heffect =>
        cases h
        exact ⟨hmatch, hfirst, hsecond, env, heffect, rfl⟩
      · cases h
    · intro h
      rcases h with ⟨-, hfirst, hsecond, env, heffect, rfl⟩
      rw [hfirst, hsecond, heffect]
  · simp only [hmatch, if_false, false_and, reduceCtorEq]

/-- A move puts a location where there was one before. -/
theorem length_of_alone? (h : o.alone? r s = some move) :
    move.next.locations.length = s.locations.length := by
  rcases alone?_eq_some_iff.mp h with ⟨-, -, env, -, rfl⟩
  simp only [List.length_set]

theorem length_of_together? (h : o.together? r s p = some move) :
    move.next.locations.length = s.locations.length := by
  rcases together?_eq_some_iff.mp h with ⟨-, -, -, env, -, rfl⟩
  simp only [List.length_set]

end Offer

namespace ChannelSystem

/-- A process goes along one of its edges from one state to another. -/
structure Goes (c : ChannelSystem L) (s t : SystemState L) (o : Offer L) : Prop where
  mem_edges : ∃ g, c.processes[o.process]? = some g ∧ o.edge ∈ g.edges
  source_eq : s.locations[o.process]? = some o.edge.source
  target_eq : t.locations[o.process]? = some o.edge.target

/-- The choices are the tuples that have a member of each list at its place. -/
theorem mem_choices_iff {options : List (List L)} {tuple : List L} :
    tuple ∈ choices options ↔ List.Forall₂ (· ∈ ·) tuple options := by
  induction options generalizing tuple with
  | nil => simp only [choices, List.mem_singleton, List.forall₂_nil_right_iff]
  | cons first rest ih =>
      simp only [choices, List.mem_flatMap, List.mem_map, ih, List.forall₂_cons_right_iff]
      constructor
      · intro h
        rcases h with ⟨l, hl, tail, htail, rfl⟩
        exact ⟨l, tail, hl, htail, rfl⟩
      · intro h
        rcases h with ⟨l, tail, hl, htail, rfl⟩
        exact ⟨l, hl, tail, htail, rfl⟩

theorem mem_initialTuples_iff {c : ChannelSystem L} {tuple : List L} :
    tuple ∈ c.initialTuples ↔ List.Forall₂ (fun l g => l ∈ g.initial) tuple c.processes := by
  rw [initialTuples, mem_choices_iff, List.forall₂_map_right_iff]
  rfl

variable [DecidableEq L] {c : ChannelSystem L} {r : Registry Id} {s : SystemState L}

/-- Runs start exactly if the initialization actions go through. -/
theorem initial_iff : (∃ starts, (c.dynamics r).initial.run = .ok starts) ↔
    ∃ env, (r.runInitialization .empty c.initializationActions).run = .ok env := by
  constructor
  · intro h
    rcases h with ⟨starts, hstarts⟩
    rcases run_bind_eq_ok_iff.mp hstarts with ⟨env, henv, -⟩
    exact ⟨env, henv⟩
  · intro h
    rcases h with ⟨env, henv⟩
    exact ⟨_, run_bind_eq_ok_iff.mpr ⟨env, henv, rfl⟩⟩

theorem starts_iff : (c.dynamics r).Starts s ↔
    (r.runInitialization .empty c.initializationActions).run = .ok s.env ∧
      List.Forall₂ (fun l g => l ∈ g.initial) s.locations c.processes := by
  rcases s with ⟨locations, env⟩
  constructor
  · intro h
    rcases h with ⟨starts, hstarts, hs⟩
    rcases run_bind_eq_ok_iff.mp hstarts with ⟨env', henv, hpure⟩
    cases hpure
    rcases List.mem_map.mp hs with ⟨tuple, htuple, heq⟩
    cases heq
    exact ⟨henv, mem_initialTuples_iff.mp htuple⟩
  · intro h
    rcases h with ⟨henv, htuple⟩
    refine ⟨_, run_bind_eq_ok_iff.mpr ⟨env, henv, rfl⟩, ?_⟩
    exact List.mem_map.mpr ⟨locations, mem_initialTuples_iff.mpr htuple, rfl⟩

/-- An offer is an edge of its process that leaves the location the process is in. -/
theorem mem_offers_iff {o : Offer L} : o ∈ c.offers s ↔
    (∃ g, c.processes[o.process]? = some g ∧ o.edge ∈ g.edges) ∧
      s.locations[o.process]? = some o.edge.source := by
  rw [offers, mem_offersOf_iff]
  simp only [List.mk_mem_zipIdx_iff_getElem?, edgesAt]
  cases c.processes[o.process]? with
  | none => simp
  | some g =>
      simp only [List.mem_filter, decide_eq_true_eq, Option.some.injEq, exists_eq_left']
      constructor
      · intro h
        rcases h with ⟨location, hlocation, hedge, rfl⟩
        exact ⟨hedge, hlocation⟩
      · intro h
        exact ⟨o.edge.source, h.2, h.1, rfl⟩

/-- In a move of one process the others stay where they are. -/
theorem goes_of_alone? {o : Offer L} {t : SystemState L} {action : String} (ho : o ∈ c.offers s)
    (h : o.alone? r s = some ⟨t, action⟩) :
    c.Goes s t o ∧ ∀ k, k ≠ o.process → t.locations[k]? = s.locations[k]? := by
  rcases mem_offers_iff.mp ho with ⟨hedge, hsource⟩
  rcases Offer.alone?_eq_some_iff.mp h with ⟨-, -, env, -, hmove⟩
  cases hmove
  have hlt := (List.getElem?_eq_some_iff.mp hsource).1
  refine ⟨⟨hedge, hsource, List.getElem?_set_self hlt⟩, ?_⟩
  intro k hk
  exact List.getElem?_set_ne hk.symm

theorem goes_of_together? {o p : Offer L} {t : SystemState L} {action : String}
    (ho : o ∈ c.offers s) (hp : p ∈ c.offers s) (h : o.together? r s p = some ⟨t, action⟩) :
    c.Goes s t o ∧ c.Goes s t p ∧
      ∀ k, k ≠ o.process → k ≠ p.process → t.locations[k]? = s.locations[k]? := by
  rcases mem_offers_iff.mp ho with ⟨hedge, hsource⟩
  rcases mem_offers_iff.mp hp with ⟨hedge', hsource'⟩
  rcases Offer.together?_eq_some_iff.mp h with ⟨⟨hlt, -, -, -⟩, -, -, env, -, hmove⟩
  cases hmove
  have hbound := (List.getElem?_eq_some_iff.mp hsource).1
  have hbound' := (List.getElem?_eq_some_iff.mp hsource').1
  refine ⟨⟨hedge, hsource, ?_⟩, ⟨hedge', hsource', ?_⟩, ?_⟩
  · -- The second process is another one and does not undo what the first has done.
    rw [List.getElem?_set_ne (Nat.ne_of_gt hlt), List.getElem?_set_self hbound]
  · rw [List.getElem?_set_self]
    rw [List.length_set]
    exact hbound'
  · intro k hk hk'
    rw [List.getElem?_set_ne hk'.symm, List.getElem?_set_ne hk.symm]

/-- The moves of a state are those of its offers, alone or two together. -/
theorem mem_moves_iff (hs : s.Fits c) {moves : List (Move L)} (h : (c.moves r s).run = .ok moves)
    {move : Move L} : move ∈ moves ↔ ∃ o ∈ c.offers s,
      o.alone? r s = some move ∨ ∃ p ∈ c.offers s, o.together? r s p = some move := by
  rw [(moves_givesUnless hs).eq_of_run_eq_ok h]
  simp only [List.mem_flatMap, movesFrom, List.mem_append, Option.mem_toList,
    List.mem_filterMap]

/-- A state answers all questions exactly if nothing fails on the way to its moves. -/
theorem answers_iff (hs : s.Fits c) :
    (c.dynamics r).Answers s ↔ ¬ ∃ o ∈ c.offers s, c.FailsFrom r s o := by
  rw [← (moves_givesUnless (r := r) hs).exists_run_eq_ok_iff]
  constructor
  · intro h
    rcases h with ⟨moves, hmoves, -⟩
    exact ⟨moves, hmoves⟩
  · intro h
    rcases h with ⟨moves, hmoves⟩
    exact ⟨moves, hmoves, fun move _ => ⟨move.next, rfl⟩⟩

/-- Where a state leads: along the moves of its offers. -/
theorem leads_iff (hs : s.Fits c) {action : String} {t : SystemState L} :
    (c.dynamics r).Leads s action t ↔
      (¬ ∃ o ∈ c.offers s, c.FailsFrom r s o) ∧ ∃ o ∈ c.offers s,
        o.alone? r s = some ⟨t, action⟩ ∨
          ∃ p ∈ c.offers s, o.together? r s p = some ⟨t, action⟩ := by
  rw [← (moves_givesUnless (r := r) hs).exists_run_eq_ok_iff]
  constructor
  · intro h
    rcases h with ⟨moves, hmoves, ⟨next, action'⟩, hmove, haction, hnext⟩
    cases haction
    cases hnext
    exact ⟨⟨moves, hmoves⟩, (mem_moves_iff hs hmoves).mp hmove⟩
  · intro h
    rcases h with ⟨⟨moves, hmoves⟩, hmove⟩
    exact ⟨moves, hmoves, ⟨t, action⟩, (mem_moves_iff hs hmoves).mpr hmove, rfl, rfl⟩

theorem fits_of_leads (hs : s.Fits c) {action : String} {t : SystemState L}
    (h : (c.dynamics r).Leads s action t) : t.Fits c := by
  have hlength : t.locations.length = s.locations.length := by
    rcases ((leads_iff hs).mp h).2 with ⟨o, -, halone | ⟨p, -, htogether⟩⟩
    · exact Offer.length_of_alone? halone
    · exact Offer.length_of_together? htogether
  exact hlength.trans hs

/-- Reachable states have one location for each process, by induction along the run. -/
theorem fits_of_reachable (h : (c.dynamics r).Reachable s) : s.Fits c := by
  rcases h with ⟨n, hn⟩
  induction hn with
  | start hstart => exact (starts_iff.mp hstart).2.length_eq
  | step _ hst ih => exact fits_of_leads ih hst

end ChannelSystem

end Interleaving
