import Interleaving.Dynamics.Table
import Interleaving.Proofs.Exploration.Passage
import Interleaving.Proofs.Exploration.Soundness

/-!
# How Many States Are Kept

The state limit is looked at when a step leads to a state that is not known yet. It is not
looked at when the initial states are entered, so these are all kept, however many they are,
and the limit bounds what is kept beyond them. A limit of `n` is therefore no bound of `n`
states: it is one exactly if there are no more than `n` initial states, repetitions aside.
With more of them the search keeps the initial states and no other.

This is said of every run of a state space, with whatever effects its answers have. Where a
run starts is then not a matter of the state space alone, but of the answer that it got.

## Theorems

* `Dynamics.Passes.exists_grows`: All that comes after the initial states comes in below
  the limit.
* `explore_size_le_iff_starts`: A limit bounds the states exactly if it bounds the initial ones.
-/

namespace Interleaving

open MonadAttach (CanReturn)

variable {m : Type → Type} [Monad m] [LawfulMonad m] [MonadAttach m] [LawfulMonadAttach m]
  {σ ι : Type} [DecidableEq σ]

namespace Dynamics

variable {d : Dynamics m σ ι} {limits : Limits}

/-- What is found at a position has grown from the initial states of the run. -/
theorem Passes.exists_grows {asked : List σ} {depth : Nat} {rest : List Nat} {search : Search σ}
    (h : Passes d limits asked depth rest search) :
    ∃ starts, CanReturn d.initial starts ∧ ∃ system : TransitionSystem σ String String,
      system.states = .ofList starts ∧ system.Grows limits search.system := by
  induction h with
  | @start starts system frontier hstarts henter =>
      exact ⟨starts, hstarts, system, (Entered.of_enterInitial henter).2.2, .refl⟩
  | state _ _ _ _ hfollow _ ih =>
      rcases ih with ⟨starts, hstarts, system, hstates, hgrows⟩
      exact ⟨starts, hstarts, system, hstates, hgrows.trans (follow_extends hfollow).grows⟩
  | level _ _ ih => exact ih

/-- So has what is found in the end, apart from its labels. -/
theorem Ends.exists_grows {asked : List σ} {budget : Nat} {found : Exploration σ}
    (h : Ends d limits budget (.ok (some found)) asked) :
    ∃ starts, CanReturn d.initial starts ∧ ∃ system grown : TransitionSystem σ String String,
      system.states = .ofList starts ∧ system.Grows limits grown ∧
        found.system.states = grown.states := by
  cases h with
  | settled hpass hsame =>
      rcases hpass.exists_grows with ⟨starts, hstarts, system, hstates, hgrows⟩
      exact ⟨starts, hstarts, system, _, hstates, hgrows, hsame⟩
  | filled hpass _ _ hfollow hsame =>
      rcases hpass.exists_grows with ⟨starts, hstarts, system, hstates, hgrows⟩
      exact ⟨starts, hstarts, system, _, hstates, hgrows.trans (follow_extends hfollow).grows,
        hsame⟩

end Dynamics

/-- With a limit of `n` states all initial states are kept, and as many as make `n` states
    in all if there is room for more. So there are at most `n` states exactly if at most `n`
    are initial. -/
theorem explore_size_le_iff_starts (d : Dynamics m σ ι) (limits : Limits) (budget n : Nat)
    (found : Exploration σ) (hlimits : limits.maxStates = some n)
    (h : CanReturn (d.explore limits budget) (some found)) :
    ∃ starts, CanReturn d.initial starts ∧ (∀ s ∈ starts, s ∈ found.system.states) ∧
      found.system.states.size ≤ max n starts.dedup.length ∧
      (found.system.states.size ≤ n ↔ starts.dedup.length ≤ n) := by
  rcases (d.forgets_logged_explore limits budget).canReturn h [] with ⟨asked, hrun⟩
  rcases (Dynamics.ends_of_logged_explore hrun).exists_grows with
    ⟨starts, hstarts, system, grown, hstates, hgrows, hsame⟩
  have hmem : ∀ s, s ∈ system.states ↔ s ∈ starts := by
    intro s
    rw [hstates, OrderedSet.ofList, OrderedSet.mem_foldl_insert]
    exact or_iff_right List.not_mem_nil
  have hge := hgrows.size_le
  have hle := hgrows.size_le_max hlimits
  rw [TransitionSystem.size_eq_dedup_length hmem] at hge hle
  rw [hsame]
  refine ⟨starts, hstarts, ?_, hle, by omega⟩
  intro s hs
  exact hgrows.states_prefix.subset ((hmem s).mpr hs)

/-- Two states to start from, and a step from one of them to a third. -/
def Table.crowd : Dynamics Id String Table.Input :=
  Table.dynamics
    { initial := ["a", "b"]
      edges := [("a", "go", "c")]
      labels := []
      failsInitially := false
      failingStates := []
      failingActions := [] }

/-- A limit of one state is exceeded by the initial states. -/
theorem crowd_exceeds_limit :
    ∃ found, (Table.crowd.explore ⟨none, some 1⟩ 1).run = .ok (some found) ∧
      found.system.states.toList = ["a", "b"] ∧ ¬ found.system.states.size ≤ 1 := by
  have hlist : (Table.crowd.explore ⟨none, some 1⟩ 1).found?.map (·.system.states.toList) =
      some ["a", "b"] := by
    decide +kernel
  rcases Option.map_eq_some_iff.mp hlist with ⟨found, hfound, hstates⟩
  refine ⟨found, Explore.run_of_found? hfound, hstates, ?_⟩
  rw [OrderedSet.size, hstates]
  decide

/-- A limit of two states leaves room for the initial states and for no other. -/
theorem crowd_size_le_iff_starts :
    ∃ found, (Table.crowd.explore ⟨none, some 2⟩ 1).run = .ok (some found) ∧
      found.outcome = .stateLimit ∧ found.system.states.size ≤ 2 := by
  have hending : Explore.ending? (Table.crowd.explore ⟨none, some 2⟩ 1) =
      some (.stateLimit, 0) := by
    decide +kernel
  rcases Explore.exists_of_ending? hending with ⟨found, hrun, houtcome, -⟩
  rcases explore_size_le_iff_starts Table.crowd ⟨none, some 2⟩ 1 2 found rfl
    (canReturn_iff_run_eq.mpr hrun) with ⟨starts, hstarts, -, -, hiff⟩
  refine ⟨found, hrun, houtcome, hiff.mpr ?_⟩
  cases canReturn_iff_run_eq.mp hstarts
  decide

end Interleaving
