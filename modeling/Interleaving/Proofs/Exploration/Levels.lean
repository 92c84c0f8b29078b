import Interleaving.Proofs.Exploration.Expansion
import Interleaving.Proofs.Exploration.Initial
import Mathlib.Order.Interval.Set.Defs

/-!
# Level After Level

Between two levels the search is in a simple position. The states below some
number are expanded and are exactly those at a distance of less than `n`; all
known states are exactly those at a distance of at most `n`; so the frontier, the
rest of the known states, is the level at distance `n`. `AtLevel` says this. An
expansion that goes through leads from one such position to the next, and the
initial states are the first.

A search ends in one of three ways, which `Ended` lists with what is known in
each: the frontier is empty, it is not empty but may not be expanded, or its
expansion overflows.

## Main definitions

* `AtLevel`: The position between two levels.
* `Ended`: The ways in which a search ends.

## Theorems

* `Dynamics.levels_nil`, `Dynamics.levels_of_depthReached`, `Dynamics.levels_zero`,
  `Dynamics.levels_succ`: What a search does with a level.
* `AtLevel.of_entered`: The initial states are the level at distance zero.
* `AtLevel.start`, `AtLevel.next`: Into an expansion and out of it.
* `AtLevel.distances_eq`: The levels before an empty one are all there are.
* `AtLevel.levels`: Every search ends in one of the three ways.
-/

namespace Interleaving

variable {σ ι : Type}

/-- The search is about to expand the level at distance `n`. The states below
    `lo` are expanded, the others are the level. -/
structure AtLevel (d : Dynamics Id σ ι) (system : TransitionSystem σ String String)
    (n lo : Nat) : Prop extends Progress d system lo [] where
  lo_le : lo ≤ system.states.size
  nearer : system.Numbers lo (d.Before n)
  known : system.Numbers system.states.size (d.Before (n + 1))
  /-- The search goes on only from a level that is not empty. -/
  occupied : ∀ m < n, ∃ s, d.IsDistance m s

/-- The ways in which a search ends. -/
inductive Ended (d : Dynamics Id σ ι) (limits : Limits) : Exploration σ → Prop where
  /-- The level is empty. -/
  | complete {system : TransitionSystem σ String String} {n : Nat}
      (h : AtLevel d system n system.states.size) : Ended d limits ⟨system, .complete, n⟩
  /-- The level is not empty, but may not be expanded. -/
  | depthLimit {system : TransitionSystem σ String String} {n lo : Nat}
      (h : AtLevel d system n lo) (hlo : lo < system.states.size)
      (hlimit : limits.depthReached n = true) : Ended d limits ⟨system, .depthLimit, n⟩
  /-- The expansion of the level met a state that may not be kept. -/
  | stateLimit {search : Search σ} {n bound : Nat} (h : Overflows d limits search n bound) :
      Ended d limits ⟨search.system, .stateLimit, n⟩

section Unfolding

variable {m : Type → Type} [Monad m] [DecidableEq σ] (d : Dynamics m σ ι) {limits : Limits}
  {depth : Nat} {frontier : List Nat}

theorem Dynamics.levels_nil (limits : Limits) (budget depth : Nat)
    (system : TransitionSystem σ String String) :
    d.levels limits budget depth [] system = pure (some ⟨system, .complete, depth⟩) := by
  rw [levels]

theorem Dynamics.levels_of_depthReached (hne : frontier ≠ [])
    (hdepth : limits.depthReached depth = true) (budget : Nat)
    (system : TransitionSystem σ String String) :
    d.levels limits budget depth frontier system = pure (some ⟨system, .depthLimit, depth⟩) := by
  rw [levels.eq_def]
  simp only [hdepth, if_true]

theorem Dynamics.levels_zero (hne : frontier ≠ []) (hdepth : limits.depthReached depth = false)
    (system : TransitionSystem σ String String) :
    d.levels limits 0 depth frontier system = pure none := by
  rw [levels.eq_def]
  simp only [hdepth, Bool.false_eq_true, if_false]

/-- A level that may be expanded is, and the search goes on with the next one unless it
    is full. -/
theorem Dynamics.levels_succ (hne : frontier ≠ []) (hdepth : limits.depthReached depth = false)
    (budget : Nat) (system : TransitionSystem σ String String) :
    d.levels limits (budget + 1) depth frontier system =
      (d.expand limits frontier ⟨system, [], false⟩ >>= fun search =>
        if search.full then pure (some ⟨search.system, .stateLimit, depth⟩)
        else d.levels limits budget (depth + 1) search.fresh search.system) := by
  rw [levels.eq_def]
  simp only [hdepth, Bool.false_eq_true, if_false]

end Unfolding

/-- What a search does with a level, whatever its frontier is. -/
theorem Dynamics.levels_cases [DecidableEq σ] {d : Dynamics Id σ ι} {limits : Limits}
    {budget n : Nat} {frontier : List Nat} {system : TransitionSystem σ String String}
    {found : Exploration σ}
    (h : (d.levels limits budget n frontier system).run = .ok (some found)) :
    (frontier = [] ∧ found = ⟨system, .complete, n⟩) ∨
      (frontier ≠ [] ∧ limits.depthReached n = true ∧ found = ⟨system, .depthLimit, n⟩) ∨
      (frontier ≠ [] ∧ limits.depthReached n = false ∧ ∃ less search, budget = less + 1 ∧
        (d.expand limits frontier ⟨system, [], false⟩).run = .ok search ∧
        (if search.full then pure (some ⟨search.system, .stateLimit, n⟩)
          else d.levels limits less (n + 1) search.fresh search.system).run =
            .ok (some found)) := by
  by_cases hne : frontier = []
  · rw [hne, levels_nil, run_pure_eq_ok_iff, Option.some.injEq] at h
    exact Or.inl ⟨hne, h.symm⟩
  · refine Or.inr ?_
    cases hlimit : limits.depthReached n with
    | true =>
        rw [levels_of_depthReached d hne hlimit, run_pure_eq_ok_iff, Option.some.injEq] at h
        exact Or.inl ⟨hne, rfl, h.symm⟩
    | false =>
        cases budget with
        | zero =>
            rw [levels_zero d hne hlimit, run_pure_eq_ok_iff] at h
            cases h
        | succ less =>
            rw [levels_succ d hne hlimit] at h
            rcases run_bind_eq_ok_iff.mp h with ⟨search, hexpand, hrest⟩
            exact Or.inr ⟨hne, rfl, less, search, rfl, hexpand, hrest⟩

namespace AtLevel

variable {d : Dynamics Id σ ι} {limits : Limits} {system : TransitionSystem σ String String}
  {n lo : Nat}

theorem mem_states_iff (h : AtLevel d system n lo) (s : σ) :
    s ∈ system.states ↔ d.Before (n + 1) s :=
  (TransitionSystem.numbers_size_iff.mp h.known s).symm

/-- At the end of an expansion all that is one step further is known: it has a
    predecessor among the expanded states, and all successors of these are
    recorded. -/
theorem of_expanding {search : Search σ} {bound : Nat}
    (h : Expanding d search n bound bound []) (hoccupied : ∀ m < n + 1, ∃ s, d.IsDistance m s) :
    AtLevel d search.system (n + 1) bound where
  toProgress := h.toProgress
  lo_le := h.bound_le
  nearer := h.numbers
  known := by
    rw [TransitionSystem.numbers_size_iff]
    intro t
    refine ⟨?_, h.met t⟩
    intro ht
    rcases (Dynamics.before_succ_iff (n + 1) t).mp ht with hstart | ⟨s, action, hs, hst⟩
    · exact h.start_mem t hstart
    · rcases (h.numbers s).mp hs with ⟨id, hid, hs⟩
      exact TransitionSystem.mem_states_iff.mpr (h.exists_target hid hs hst)
  occupied := hoccupied

/-- An empty level is the last one. -/
theorem stable (h : AtLevel d system n system.states.size) (s : σ)
    (hs : d.Before (n + 1) s) : d.Before n s :=
  (h.nearer s).mpr ((h.known s).mp hs)

theorem lt_of_isDistance (h : AtLevel d system n system.states.size) {m : Nat} {s : σ}
    (hs : d.IsDistance m s) : m < n := by
  have hreach : d.Reachable s := ⟨m, hs.1⟩
  rw [Dynamics.reachable_iff_before_of_stable h.stable] at hreach
  rcases hreach with ⟨k, hk, hks⟩
  have := hs.2 k hks
  omega

/-- The levels before an empty one are all the levels there are. -/
theorem distances_eq (h : AtLevel d system n system.states.size) :
    d.distances = Set.Iio n := by
  ext m
  constructor
  · intro hm
    rcases hm with ⟨s, hs⟩
    exact Set.mem_Iio.mpr (h.lt_of_isDistance hs)
  · intro hm
    exact h.occupied m (Set.mem_Iio.mp hm)

/-- The initial states are the level at distance zero. -/
theorem of_entered (h : Entered system) (hstart : ∀ s, d.Starts s ↔ s ∈ system.states) :
    AtLevel d system 0 0 where
  toProgress := h.progress hstart
  lo_le := Nat.zero_le _
  nearer := by
    intro s
    constructor
    · intro hs
      exact absurd hs (Dynamics.not_before_zero s)
    · intro hs
      rcases hs with ⟨id, hid, -⟩
      exact absurd hid (Nat.not_lt_zero id)
  known := by
    rw [TransitionSystem.numbers_size_iff]
    intro s
    rw [Dynamics.before_one_iff, hstart]
  occupied := fun m hm => absurd hm (Nat.not_lt_zero m)

variable [DecidableEq σ]

/-- The first state of the frontier is at the distance of the level. -/
theorem exists_isDistance (h : AtLevel d system n lo) (hlo : lo < system.states.size) :
    ∃ s, d.IsDistance n s := by
  rcases TransitionSystem.exists_state?_of_lt hlo with ⟨s, hs⟩
  have hmem := TransitionSystem.mem_states_of_state? hs
  refine ⟨s, (Dynamics.isDistance_iff_before n s).mpr ⟨(h.mem_states_iff s).mp hmem, ?_⟩⟩
  intro hbefore
  rcases (h.nearer s).mp hbefore with ⟨id, hid, hs'⟩
  have := TransitionSystem.state?_inj hs hs'
  omega

/-- The beginning of the expansion of a level. -/
theorem start (h : AtLevel d system n lo) :
    Expanding d ⟨system, [], false⟩ n system.states.size lo [] where
  toProgress := h.toProgress
  bound_le := Nat.le_refl _
  fresh_eq := by
    rw [Nat.sub_self, List.range'_zero]
  numbers := h.known
  not_nearer := by
    intro id s hid hs hbefore
    rcases (h.nearer s).mp hbefore with ⟨old, hold, hs'⟩
    have := TransitionSystem.state?_inj hs hs'
    omega
  met := by
    intro s hs
    exact ((h.mem_states_iff s).mp hs).mono (by omega)

/-- An expansion that has gone through and has brought something leads to a level that is
    not empty. -/
theorem of_expanding_of_lt {search : Search σ} {bound : Nat}
    (h : Expanding d search n bound bound []) (hlt : bound < search.system.states.size) :
    AtLevel d search.system (n + 1) bound := by
  rcases TransitionSystem.exists_state?_of_lt hlt with ⟨s, hs⟩
  have hfar : ¬ d.Before (n + 1) s := by
    intro hbefore
    rcases (h.numbers s).mp hbefore with ⟨id, hid, hs'⟩
    have := TransitionSystem.state?_inj hs hs'
    omega
  have hdist : d.IsDistance (n + 1) s := (Dynamics.isDistance_iff_before (n + 1) s).mpr
    ⟨h.met s (TransitionSystem.mem_states_of_state? hs), hfar⟩
  refine of_expanding h ?_
  intro m hm
  exact hdist.exists_of_le (by omega)

/-- When the expansion of a level has gone through, the next level is up. -/
theorem next (h : AtLevel d system n lo) (hlo : lo < system.states.size) {search : Search σ}
    {bound : Nat} (hend : Expanding d search n bound bound []) :
    AtLevel d search.system (n + 1) bound := by
  refine of_expanding hend ?_
  intro m hm
  by_cases heq : m = n
  · rw [heq]
    exact h.exists_isDistance hlo
  · exact h.occupied m (by omega)

/-- Every search ends in one of the three ways, and no level that was expanded
    was at the depth limit. The induction is on the budget. -/
theorem levels {budget : Nat} {found : Exploration σ} (h : AtLevel d system n lo)
    (hrun : (d.levels limits budget n (List.range' lo (system.states.size - lo)) system).run =
      .ok (some found)) :
    Ended d limits found ∧ ∀ m, n ≤ m → m < found.depth → limits.depthReached m = false := by
  induction budget using Nat.strong_induction_on generalizing system n lo with
  | _ budget ih =>
    have hle := h.lo_le
    have hempty : List.range' lo (system.states.size - lo) = [] ↔ lo = system.states.size := by
      rw [List.range'_eq_nil_iff]
      omega
    have hlo : List.range' lo (system.states.size - lo) ≠ [] → lo < system.states.size := by
      intro hne
      have := mt hempty.mpr hne
      omega
    rcases Dynamics.levels_cases hrun with ⟨hnil, hfound⟩ | ⟨hne, hlimit, hfound⟩ |
      ⟨hne, hlimit, less, search, hless, hexpand, hrest⟩
    · rw [hfound]
      refine ⟨.complete (hempty.mp hnil ▸ h), ?_⟩
      intro m hnm hm
      exact absurd hnm (Nat.not_le_of_lt hm)
    · rw [hfound]
      refine ⟨.depthLimit h (hlo hne) hlimit, ?_⟩
      intro m hnm hm
      exact absurd hnm (Nat.not_le_of_lt hm)
    · rcases h.start.expand (by omega) rfl hexpand with ⟨hfull, hend⟩ | ⟨hfull, hover⟩
      · -- The level is done, and its successors are the next one.
        rw [if_neg (by rw [hfull]; exact Bool.false_ne_true), hend.fresh_eq] at hrest
        rcases ih less (by omega) (h.next (hlo hne) hend) hrest with ⟨hended, hdepth⟩
        refine ⟨hended, ?_⟩
        intro m hnm hm
        by_cases heq : m = n
        · rw [heq]
          exact hlimit
        · exact hdepth m (by omega) hm
      · rw [if_pos hfull, run_pure_eq_ok_iff, Option.some.injEq] at hrest
        rw [← hrest]
        refine ⟨.stateLimit hover, ?_⟩
        intro m hnm hm
        exact absurd hnm (Nat.not_le_of_lt hm)

end AtLevel

end Interleaving
