import Interleaving.Dynamics
import Mathlib.Data.Nat.Find
import Mathlib.Data.Set.Card
import Mathlib.Order.Interval.Set.Nat

/-!
# Reachability and Distance

What a pure state space can reach, said without a search. Its answers are plain
values, so a step is a relation: a state leads to another under an action if it
offers an input with that action that leads there. Inputs whose successor
cannot be computed lead nowhere.

Runs are counted. `ReachedIn n` is the end of some run of exactly `n` steps,
and a state may be the end of runs of many lengths; its distance is the least
of them. A search by levels never compares lengths. It only knows which states
it has met in fewer than `n` steps, so `Before n` is the notion its invariants
are stated with, and `isDistance_iff_before` translates.

A state that is first met in some level has a predecessor in the level before. So
a level that brings nothing new is the last one, which is
`reachable_iff_before_of_stable`.

## Main definitions

* `Dynamics.Starts`, `Dynamics.Leads`: The answers of a state space as relations.
* `Dynamics.ReachedIn`: The end of a run of a given length.
* `Dynamics.Reachable`: The end of some run.
* `Dynamics.Before`: The end of a run of less than a given length.
* `Dynamics.IsDistance`: The length of the shortest runs.
* `Dynamics.distances`: The lengths of shortest runs that occur.

## Theorems

* `before_succ_iff`: What a further step adds.
* `reachable_iff_before_of_stable`: A level without new states is the last one.
* `isDistance_iff_before`: Distances by what was met before.
* `reachable_iff_exists_isDistance`: A reachable state has a distance.
* `IsDistance.exists_of_le`: There are no gaps between distances.
* `encard_distances_of_eq_Iio`: Counting levels.
-/

namespace Interleaving

namespace Dynamics

variable {σ ι : Type} (d : Dynamics Id σ ι)

/-- Runs can start in a state. -/
def Starts (s : σ) : Prop :=
  ∃ starts, d.initial.run = .ok starts ∧ s ∈ starts

/-- A state offers an input under an action that leads to a state. -/
def Leads (s : σ) (action : String) (t : σ) : Prop :=
  ∃ inputs, (d.inputs s).run = .ok inputs ∧
    ∃ input ∈ inputs, d.action input = action ∧ (d.next s input).run = .ok t

/-- The end of a run of exactly `n` steps. -/
inductive ReachedIn : Nat → σ → Prop where
  | start {s : σ} (h : d.Starts s) : ReachedIn 0 s
  | step {n : Nat} {s t : σ} {action : String} (h : ReachedIn n s) (hst : d.Leads s action t) :
      ReachedIn (n + 1) t

/-- The end of some run. -/
def Reachable (s : σ) : Prop :=
  ∃ n, d.ReachedIn n s

/-- The end of a run of less than `n` steps. -/
def Before (n : Nat) (s : σ) : Prop :=
  ∃ k < n, d.ReachedIn k s

/-- The length of the shortest runs that end in a state. -/
def IsDistance (n : Nat) (s : σ) : Prop :=
  d.ReachedIn n s ∧ ∀ k, d.ReachedIn k s → n ≤ k

/-- The distances of the reachable states. -/
def distances : Set Nat :=
  {n | ∃ s, d.IsDistance n s}

variable {d}

theorem starts_iff_of_run {starts : List σ} (h : d.initial.run = .ok starts) (s : σ) :
    d.Starts s ↔ s ∈ starts := by
  constructor
  · intro hs
    rcases hs with ⟨starts', hstarts', hs⟩
    rw [h] at hstarts'
    cases hstarts'
    exact hs
  · intro hs
    exact ⟨starts, h, hs⟩

theorem not_before_zero (s : σ) : ¬ d.Before 0 s := by
  intro h
  rcases h with ⟨k, hk, -⟩
  omega

theorem before_one_iff (s : σ) : d.Before 1 s ↔ d.Starts s := by
  constructor
  · intro h
    rcases h with ⟨k, hk, h⟩
    cases h with
    | start h => exact h
    | step _ _ => omega
  · intro h
    exact ⟨0, by omega, .start h⟩

theorem Before.mono {m n : Nat} {s : σ} (h : d.Before m s) (hmn : m ≤ n) : d.Before n s := by
  rcases h with ⟨k, hk, hs⟩
  exact ⟨k, by omega, hs⟩

theorem Before.step {n : Nat} {s t : σ} {action : String} (h : d.Before n s)
    (hst : d.Leads s action t) : d.Before (n + 1) t := by
  rcases h with ⟨k, hk, hs⟩
  exact ⟨k + 1, by omega, hs.step hst⟩

theorem Before.reachable {n : Nat} {s : σ} (h : d.Before n s) : d.Reachable s := by
  rcases h with ⟨k, -, hs⟩
  exact ⟨k, hs⟩

/-- What one more step adds: the starts are there in any case, and every other
    state has a predecessor that was met one step earlier. -/
theorem before_succ_iff (n : Nat) (t : σ) :
    d.Before (n + 1) t ↔ d.Starts t ∨ ∃ s action, d.Before n s ∧ d.Leads s action t := by
  constructor
  · intro h
    rcases h with ⟨k, hk, h⟩
    cases h with
    | start h => exact Or.inl h
    | step h hst => exact Or.inr ⟨_, _, ⟨_, by omega, h⟩, hst⟩
  · intro h
    rcases h with h | ⟨s, action, h, hst⟩
    · exact ((before_one_iff t).mpr h).mono (by omega)
    · exact h.step hst

/-- A level that brings no new states is the last one. -/
theorem reachable_iff_before_of_stable {n : Nat} (h : ∀ s, d.Before (n + 1) s → d.Before n s)
    (s : σ) : d.Reachable s ↔ d.Before n s := by
  refine ⟨?_, Before.reachable⟩
  intro hreach
  rcases hreach with ⟨k, hk⟩
  -- Along the run every state is met before level `n`: a step from such a state
  -- leads at most one level further, where there is nothing new.
  induction hk with
  | start hs => exact h _ ((before_one_iff _).mpr hs |>.mono (by omega))
  | step _ hst ih => exact h _ (ih.step hst)

theorem isDistance_iff_before (n : Nat) (s : σ) :
    d.IsDistance n s ↔ d.Before (n + 1) s ∧ ¬ d.Before n s := by
  constructor
  · intro h
    rcases h with ⟨hs, hmin⟩
    refine ⟨⟨n, by omega, hs⟩, ?_⟩
    intro hbefore
    rcases hbefore with ⟨k, hk, hks⟩
    have := hmin k hks
    omega
  · intro h
    rcases h with ⟨⟨k, hk, hks⟩, hn⟩
    have hmin : ∀ j, d.ReachedIn j s → n ≤ j := by
      intro j hj
      by_contra hlt
      exact hn ⟨j, by omega, hj⟩
    have hkn : k = n := by
      have := hmin k hks
      omega
    exact ⟨hkn ▸ hks, hmin⟩

theorem reachable_iff_exists_isDistance (s : σ) : d.Reachable s ↔ ∃ n, d.IsDistance n s := by
  classical
  constructor
  · intro h
    exact ⟨Nat.find h, Nat.find_spec h, fun k hk => Nat.find_min' h hk⟩
  · intro h
    rcases h with ⟨n, h⟩
    exact ⟨n, h.1⟩

theorem before_iff_exists_isDistance (n : Nat) (s : σ) :
    d.Before n s ↔ ∃ k < n, d.IsDistance k s := by
  constructor
  · intro h
    rcases h with ⟨k, hk, hs⟩
    rcases (reachable_iff_exists_isDistance s).mp ⟨k, hs⟩ with ⟨m, hm⟩
    have := hm.2 k hs
    exact ⟨m, by omega, hm⟩
  · intro h
    rcases h with ⟨k, hk, hs⟩
    exact ⟨k, hk, hs.1⟩

/-- A shortest run has come through every smaller distance. -/
theorem IsDistance.exists_of_le {m n : Nat} {s : σ} (h : d.IsDistance n s) (hmn : m ≤ n) :
    ∃ t, d.IsDistance m t := by
  induction n generalizing s with
  | zero => exact ⟨s, Nat.le_zero.mp hmn ▸ h⟩
  | succ n ih =>
      by_cases heq : m = n + 1
      · exact ⟨s, heq ▸ h⟩
      rcases (isDistance_iff_before (n + 1) s).mp h with ⟨hbefore, hnot⟩
      rcases (before_succ_iff (n + 1) s).mp hbefore with hstart | ⟨t, action, ht, hts⟩
      · exact absurd (((before_one_iff s).mpr hstart).mono (by omega)) hnot
      · -- A predecessor that was met earlier would have made `s` nearer.
        have hfar : ¬ d.Before n t := fun hnear => hnot (hnear.step hts)
        exact ih ((isDistance_iff_before n t).mpr ⟨ht, hfar⟩) (by omega)

theorem zero_mem_distances_iff : 0 ∈ d.distances ↔ ∃ s, d.Starts s := by
  constructor
  · intro h
    rcases h with ⟨s, hs⟩
    exact ⟨s, (before_one_iff s).mp ⟨0, by omega, hs.1⟩⟩
  · intro h
    rcases h with ⟨s, hs⟩
    exact ⟨s, .start hs, fun k _ => Nat.zero_le k⟩

/-- If the levels are those below `n`, then `n` counts them. It is zero if runs
    start nowhere, and otherwise one more than the largest distance. -/
theorem encard_distances_of_eq_Iio {n : Nat} (h : d.distances = Set.Iio n) :
    d.distances.encard = n ∧ ((¬ ∃ s, d.Starts s) → n = 0) ∧
      ((∃ s, d.Starts s) → ∃ m, IsGreatest d.distances m ∧ n = m + 1) := by
  have hzero : 0 < n ↔ ∃ s, d.Starts s := by
    rw [← zero_mem_distances_iff, h, Set.mem_Iio]
  refine ⟨?_, ?_, ?_⟩
  · rw [h, ← (Set.finite_Iio n).cast_ncard_eq, Set.ncard_Iio_nat]
  · intro hstart
    rw [← hzero] at hstart
    omega
  · intro hstart
    rw [← hzero] at hstart
    refine ⟨n - 1, ?_, by omega⟩
    rw [h]
    refine ⟨Set.mem_Iio.mpr (by omega), ?_⟩
    intro m hm
    have := Set.mem_Iio.mp hm
    omega

end Dynamics

end Interleaving
