import Interleaving.Proofs.Exploration.Passage
import Interleaving.Proofs.Exploration.Portrait
import Mathlib.Data.Set.Card

/-!
# Why a Search Ends

A search is given a budget of levels, and there are state spaces for which no budget is
large enough. This module says when there is one. A position that has come to some depth
has met more states than that, because each level began with a state that was new. So the
depth is bounded as soon as the states are: by the state limit, or because only finitely
many states can be reached at all. A depth limit bounds it directly.

The initial states are kept whatever the state limit is. They may exceed it, but then no
state comes in after them and there is no second level; this is why the bound by the state
limit is the limit itself and does not depend on the initial states.

The states are asked about in the order of their numbers, so what was asked about is
always a beginning of the list of known states. In particular no state is asked about
twice.

## Main definitions

* `Dynamics.MayReach`: A state that some run of the state space can come to.

## Theorems

* `Dynamics.mayReach_iff_reachable`: Without effects these are the reachable states.
* `Dynamics.Passes.mayReach`: A search meets no others.
* `Dynamics.Passes.depth_le_maxStates`, `Dynamics.Passes.depth_lt_ncard`: The states bound
  the depth.
* `explore_ends_and_asks_once`: A search ends if it has a limit or finitely many states to
  find, and it asks about no state twice.
-/

namespace Interleaving

open MonadAttach (CanReturn)

variable {m : Type → Type} [Monad m] [MonadAttach m] {σ ι : Type}

namespace Dynamics

/-- A state that some run of the state space can come to. -/
inductive MayReach (d : Dynamics m σ ι) : σ → Prop where
  | start {starts : List σ} {s : σ} (hstarts : CanReturn d.initial starts) (hs : s ∈ starts) :
      MayReach d s
  | step {s t : σ} {inputs : List ι} {input : ι} (h : MayReach d s)
      (hinputs : CanReturn (d.inputs s) inputs) (hinput : input ∈ inputs)
      (hnext : CanReturn (d.next s input) t) : MayReach d t

/-- Without effects there is one answer to each question, and the runs are those that are
    counted by `ReachedIn`. -/
theorem mayReach_iff_reachable {d : Dynamics Id σ ι} {s : σ} : d.MayReach s ↔ d.Reachable s := by
  constructor
  · intro h
    induction h with
    | start hstarts hs => exact ⟨0, .start ⟨_, hstarts, hs⟩⟩
    | step _ hinputs hinput hnext ih =>
        rcases ih with ⟨n, hn⟩
        exact ⟨n + 1, hn.step ⟨_, hinputs, _, hinput, rfl, hnext⟩⟩
  · intro h
    rcases h with ⟨n, hn⟩
    induction hn with
    | start hstart =>
        rcases hstart with ⟨starts, hstarts, hs⟩
        exact .start hstarts hs
    | step _ hst ih =>
        rcases hst with ⟨inputs, hinputs, input, hinput, -, hnext⟩
        exact ih.step hinputs hinput hnext

/-- A complete exploration has found all that can be reached. -/
theorem finite_of_complete [DecidableEq σ] {d : Dynamics Id σ ι} {limits : Limits} {budget : Nat}
    {found : Exploration σ} (h : (d.explore limits budget).run = .ok (some found))
    (hcomplete : found.outcome = .complete) : {s | d.MayReach s}.Finite := by
  rcases explore_cases h with ⟨ended, hended, -, houtcome, -, -⟩
  rw [hcomplete] at houtcome
  cases hended with
  | @complete system n hlevel =>
      refine (List.finite_toSet system.states.toList).subset ?_
      intro s hs
      have hreach : d.Reachable s := mayReach_iff_reachable.mp hs
      rw [reachable_iff_before_of_stable hlevel.stable] at hreach
      exact (hlevel.mem_states_iff s).mpr (hreach.mono (by omega))
  | depthLimit _ _ _ => cases houtcome
  | stateLimit _ => cases houtcome

variable [DecidableEq σ] [LawfulMonad m] [LawfulMonadAttach m] {d : Dynamics m σ ι}
  {limits : Limits} {asked : List σ} {depth : Nat} {rest : List Nat} {search : Search σ}

/-- The inputs of a state that some run can come to lead to states of this kind. -/
theorem mayReach_of_follow {id : Nat} {s : σ} {inputs : List ι} {search' : Search σ}
    (h : ∀ t ∈ search.system.states, d.MayReach t) (hs : search.system.state? id = some s)
    (hinputs : CanReturn (d.inputs s) inputs)
    (hfollow : CanReturn (d.follow limits id s inputs search) search') :
    ∀ t ∈ search'.system.states, d.MayReach t := by
  intro t ht
  rcases (follow_extends hfollow).mem_states t ht with hold | ⟨input, hinput, hnext⟩
  · exact h t hold
  · exact (h s (TransitionSystem.mem_states_of_state? hs)).step hinputs hinput hnext

namespace Passes

/-- A search meets only states that some run can come to. -/
theorem mayReach (h : Passes d limits asked depth rest search) :
    ∀ s ∈ search.system.states, d.MayReach s := by
  induction h with
  | @start starts system frontier hstarts henter =>
      rcases Entered.of_enterInitial henter with ⟨-, -, hstates⟩
      intro s hs
      rw [hstates, OrderedSet.ofList, OrderedSet.mem_foldl_insert] at hs
      rcases hs with hnone | hs
      · cases hnone
      · exact .start hstarts hs
  | state _ _ hs hinputs hfollow _ ih => exact mayReach_of_follow ih hs hinputs hfollow
  | level _ _ ih => exact ih

/-- At a level with something in it, the states outnumber the levels before. -/
theorem depth_lt_size (h : Passes d limits asked depth rest search) (hne : rest ≠ []) :
    depth < search.system.states.size := by
  rcases h.counted with ⟨bound, hcount⟩
  have hle := hcount.bound_le
  have hdepth := hcount.depth_lt
  have hbound : asked.length < bound := by
    rw [hcount.rest_eq, Ne, List.range'_eq_nil_iff] at hne
    omega
  omega

theorem depth_le_maxStates (h : Passes d limits asked depth rest search) (hne : rest ≠ [])
    {n : Nat} (hn : limits.maxStates = some n) : depth ≤ n := by
  have hlt := h.depth_lt_size hne
  rcases h.counted with ⟨bound, hcount⟩
  by_cases hdepth : 0 < depth
  · have hsize := hcount.size_le (Or.inl hdepth) n hn
    omega
  · omega

theorem depth_lt_ncard (h : Passes d limits asked depth rest search) (hne : rest ≠ [])
    (hfinite : {s | d.MayReach s}.Finite) : depth < {s | d.MayReach s}.ncard := by
  have hlt := h.depth_lt_size hne
  -- The known states are distinct, so they are no more than there are.
  have hsub : (search.system.states.toList.toFinset : Set σ) ⊆ {s | d.MayReach s} := by
    intro s hs
    exact h.mayReach s (List.mem_toFinset.mp hs)
  have hcard := Set.ncard_le_ncard hsub hfinite
  rw [Set.ncard_coe_finset, List.toFinset_card_of_nodup search.system.states.nodup] at hcard
  exact Nat.lt_of_lt_of_le hlt hcard

end Passes

/-- With a limit, or with finitely many states to find, there is a budget that is enough. -/
theorem Ends.exists_budget (hends : limits.isBounded = true ∨ {s | d.MayReach s}.Finite) :
    ∃ levels, ∀ budget ≥ levels, ∀ asked, ¬ Ends d limits budget (.ok none) asked := by
  rcases hends with hbounded | hfinite
  · cases hdepth : limits.maxDepth with
    | some n =>
        refine ⟨n, ?_⟩
        intro budget hbudget asked h
        cases h with
        | spent _ _ hreached =>
            rw [Limits.depthReached, hdepth, Limits.reached, decide_eq_false_iff_not] at hreached
            exact hreached hbudget
    | none =>
        cases hstates : limits.maxStates with
        | some n =>
            refine ⟨n + 1, ?_⟩
            intro budget hbudget asked h
            cases h with
            | spent hpass hne _ =>
                have hle := hpass.depth_le_maxStates hne hstates
                omega
        | none =>
            rw [Limits.isBounded, hdepth, hstates] at hbounded
            cases hbounded
  · refine ⟨{s | d.MayReach s}.ncard, ?_⟩
    intro budget hbudget asked h
    cases h with
    | spent hpass hne _ =>
        have hlt := hpass.depth_lt_ncard hne hfinite
        omega

/-- However a run ends, it has asked about the first of the states it knows. -/
theorem Ends.asked_begins {budget : Nat}
    {r : Except (ExplorationError σ String String) (Option (Exploration σ))}
    (h : Ends d limits budget r asked) :
    ∃ states : OrderedSet σ, asked <+: states.toList ∧ (∀ s ∈ states, d.MayReach s) ∧
      ∀ found, r = .ok (some found) → states = found.system.states := by
  cases h with
  | unstarted _ =>
      refine ⟨.empty, List.nil_prefix, ?_, ?_⟩
      · intro s hs
        cases hs
      · intro found hfound
        cases hfound
  | failed h _ hs _ =>
      rcases h.counted with ⟨bound, hcount⟩
      refine ⟨_, hcount.begins_append hs, h.mayReach, ?_⟩
      intro found hfound
      cases hfound
  | spent h _ _ =>
      rcases h.counted with ⟨bound, hcount⟩
      refine ⟨_, hcount.begins, h.mayReach, ?_⟩
      intro found hfound
      cases hfound
  | settled h hstates =>
      rcases h.counted with ⟨bound, hcount⟩
      refine ⟨_, hcount.begins, h.mayReach, ?_⟩
      intro found hfound
      cases hfound
      exact hstates.symm
  | filled h hs hinputs hfollow hstates =>
      rcases h.counted with ⟨bound, hcount⟩
      have hgrows := (follow_extends hfollow).grows
      refine ⟨_, (hcount.begins_append hs).trans hgrows.states_prefix,
        mayReach_of_follow h.mayReach hs hinputs hfollow, ?_⟩
      intro found hfound
      cases hfound
      exact hstates.symm

/-- Without effects, what is asked about can be reached. -/
theorem reachable_of_mem_asked {d : Dynamics Id σ ι} {budget : Nat} {s : σ}
    (hs : s ∈ d.asked limits budget) : d.Reachable s := by
  rcases (ends_of_logged_explore (d.canReturn_logged_explore limits budget)).asked_begins with
    ⟨states, hbegins, hreach, -⟩
  exact mayReach_iff_reachable.mp (hreach s (hbegins.subset hs))

end Dynamics

variable [DecidableEq σ] [LawfulMonad m] [LawfulMonadAttach m]

/-- A search that has a limit, or finitely many states to find, ends: from some budget
    on, the budget is never spent. In every run, however it ends, no state is asked for its
    inputs twice, and if something is found, then the states that were asked are the first
    of those that were kept. The runs are those of the state space with a log, which runs
    as the state space itself does. -/
theorem explore_ends_and_asks_once (d : Dynamics m σ ι) (limits : Limits) :
    ((limits.isBounded = true ∨ {s | d.MayReach s}.Finite) →
      ∃ levels, ∀ budget ≥ levels, ¬ CanReturn (d.explore limits budget) none) ∧
    ∀ budget, Explore.Forgets (d.logged.explore limits budget) (d.explore limits budget) ∧
      ∀ result asked,
        CanReturn ((d.logged.explore limits budget).run.run []) (result, asked) →
          asked.Nodup ∧ (∀ s ∈ asked, d.MayReach s) ∧
            ∀ found, result = .ok (some found) → asked <+: found.system.states.toList := by
  constructor
  · intro hends
    rcases Dynamics.Ends.exists_budget hends with ⟨levels, hlevels⟩
    refine ⟨levels, ?_⟩
    intro budget hbudget hnone
    rcases (d.forgets_logged_explore limits budget).canReturn hnone [] with ⟨asked, hrun⟩
    exact hlevels budget hbudget asked (Dynamics.ends_of_logged_explore hrun)
  · intro budget
    refine ⟨d.forgets_logged_explore limits budget, ?_⟩
    intro result asked hrun
    rcases (Dynamics.ends_of_logged_explore hrun).asked_begins with
      ⟨states, hbegins, hreach, hfound⟩
    refine ⟨states.nodup.sublist hbegins.sublist, fun s hs => hreach s (hbegins.subset hs), ?_⟩
    intro found hresult
    rw [← hfound found hresult]
    exact hbegins

/-- A state space without end that counts how often it was asked, and whose answers depend
    on that. -/
def Dynamics.restless : Dynamics (StateM Nat) Nat Nat where
  initial := return [0]
  inputs _ := do
    let asked ← getModify (· + 1)
    return [asked, asked + 1]
  next s input := return s + input + 1
  action _ := "tick"
  labels _ := []

theorem Dynamics.restless_infinite : {s | Dynamics.restless.MayReach s}.Infinite := by
  have hall : {s | Dynamics.restless.MayReach s} = Set.univ := by
    ext s
    refine ⟨fun _ => Set.mem_univ s, fun _ => ?_⟩
    have hzero : Dynamics.restless.MayReach 0 := .start ⟨0, 0, rfl⟩ (List.mem_singleton.mpr rfl)
    cases s with
    | zero => exact hzero
    | succ n =>
        -- Asked for the `n`-th time, zero offers the input `n`.
        have hinputs : CanReturn (Dynamics.restless.inputs 0) [n, n + 1] := ⟨n, n + 1, rfl⟩
        have hnext : CanReturn (Dynamics.restless.next 0 n) (0 + n + 1) := ⟨0, 0, rfl⟩
        rw [Nat.zero_add] at hnext
        exact hzero.step hinputs List.mem_cons_self hnext
  rw [hall]
  exact Set.infinite_univ

/-- With a state limit the search in the restless space ends, although the space does not.
    The relay is finite and needs no limit, and its three states are asked about once
    each. -/
theorem restless_and_relay_end :
    {s | Dynamics.restless.MayReach s}.Infinite ∧
      (∃ levels, ∀ budget ≥ levels,
        ¬ CanReturn (Dynamics.restless.explore ⟨none, some 3⟩ budget) none) ∧
      (∃ levels, ∀ budget ≥ levels, ¬ CanReturn (Table.relay.explore .unbounded budget) none) ∧
      Table.relay.asked .unbounded 3 = ["a", "b", "c"] ∧
      (Table.relay.asked .unbounded 3).Nodup := by
  have hending : Explore.ending? (Table.relay.explore .unbounded 3) = some (.complete, 3) := by
    decide +kernel
  rcases Explore.exists_of_ending? hending with ⟨found, hrun, hcomplete, -⟩
  refine ⟨Dynamics.restless_infinite,
    (explore_ends_and_asks_once Dynamics.restless ⟨none, some 3⟩).1 (Or.inl rfl),
    (explore_ends_and_asks_once Table.relay .unbounded).1
      (Or.inr (Dynamics.finite_of_complete hrun hcomplete)), by decide +kernel, ?_⟩
  have hasked := ((explore_ends_and_asks_once Table.relay .unbounded).2 3).2 _ _
    (Table.relay.canReturn_logged_explore .unbounded 3)
  exact hasked.1

end Interleaving
