import Interleaving.Proofs.ChannelSystem.Steps
import Interleaving.Proofs.Registry.Initialization
import Mathlib.Algebra.BigOperators.Ring.List
import Mathlib.Data.List.Induction

/-!
# Where a Channel System Starts

The starts of a channel system are all tuples with one initial location for each process,
in one environment. The environment comes first: the initialization actions of all
processes are run one after the other, from nothing, as if they were those of a single
process. If one of them does not go through, there are no starts and its failure is the
answer. Whatever effects the handlers have besides, running the actions is all that is
asked of them.

The tuples can be made process by process. Each round takes the tuples of the processes so
far and puts an initial location of the next process at the end of each, in every way. A
round makes no tuple twice if the tuples so far are different and the locations are, and it
multiplies their number by that of the locations. One process without initial locations
leaves nothing, and without processes there is the empty tuple.

## Main definitions

* `ChannelSystem.extendEach`: A location put at the end of each tuple, in every way.
* `ChannelSystem.startsIn`: All initial tuples in an environment.

## Theorems

* `ChannelSystem.choices_concat`: What one more process adds.
* `ChannelSystem.nodup_choices`, `ChannelSystem.length_choices`: Tuples without repetition,
  and their number.
* `ChannelSystem.run_initialStates`: Initialization and tuples, for handlers of any kind.
* `ChannelSystem.starts_are_tuples_after_initialization`: All of this for every system.
-/

namespace Interleaving

variable {L : Type}

namespace ChannelSystem

section Tuples

/-- A location put at the end of each tuple, in every way. -/
def extendEach (tuples : List (List L)) (locations : List L) : List (List L) :=
  tuples.flatMap fun tuple => locations.map fun l => tuple ++ [l]

/-- A round makes no tuple twice. -/
theorem nodup_extendEach {tuples : List (List L)} {locations : List L} (htuples : tuples.Nodup)
    (hlocations : locations.Nodup) : (extendEach tuples locations).Nodup := by
  refine List.nodup_flatMap.mpr ⟨?_, ?_⟩
  · intro tuple _
    refine hlocations.map ?_
    intro l l' heq
    exact List.head_eq_of_cons_eq (List.append_cancel_left heq)
  · -- What was put at the end can be taken off again, so different tuples stay different.
    refine htuples.imp ?_
    intro tuple tuple' hne longer hmem hmem'
    rcases List.mem_map.mp hmem with ⟨l, -, rfl⟩
    rcases List.mem_map.mp hmem' with ⟨l', -, heq⟩
    exact hne (List.append_inj_left' heq rfl).symm

theorem length_extendEach (tuples : List (List L)) (locations : List L) :
    (extendEach tuples locations).length = tuples.length * locations.length := by
  unfold extendEach
  simp only [List.length_flatMap, List.length_map, List.map_const', List.sum_replicate_nat]

/-- One more list is one more round. -/
theorem choices_concat (options : List (List L)) (last : List L) :
    choices (options ++ [last]) = extendEach (choices options) last := by
  induction options with
  | nil => simp [choices, extendEach, List.map_eq_flatMap]
  | cons first rest ih =>
      have hrest : choices (rest ++ [last]) = extendEach (choices rest) last := ih
      simp only [List.cons_append, choices, hrest, extendEach, List.map_flatMap,
        List.flatMap_assoc, List.flatMap_map, List.map_map, Function.comp_def]

/-- Round after round, no tuple is made twice. -/
theorem nodup_choices {options : List (List L)} (h : ∀ locations ∈ options, locations.Nodup) :
    (choices options).Nodup := by
  induction options using List.reverseRecOn with
  | nil => exact List.nodup_singleton []
  | append_singleton options last ih =>
      rw [List.forall_mem_append, List.forall_mem_singleton] at h
      rw [choices_concat]
      exact nodup_extendEach (ih h.1) h.2

theorem length_choices (options : List (List L)) :
    (choices options).length = (options.map List.length).prod := by
  induction options using List.reverseRecOn with
  | nil => rfl
  | append_singleton options last ih =>
      rw [choices_concat, length_extendEach, ih, List.map_append, List.prod_append,
        List.map_singleton, List.prod_singleton]

end Tuples

/-- All initial tuples in one environment. -/
def startsIn (c : ChannelSystem L) (env : Environment) : List (SystemState L) :=
  c.initialTuples.map (⟨·, env⟩)

variable {c : ChannelSystem L} {env : Environment} {s : SystemState L}

theorem nodup_startsIn (c : ChannelSystem L) (env : Environment) : (c.startsIn env).Nodup := by
  have htuples : c.initialTuples.Nodup := by
    refine nodup_choices ?_
    intro locations hlocations
    rcases List.mem_map.mp hlocations with ⟨g, -, rfl⟩
    exact g.initial.nodup
  refine htuples.map ?_
  intro tuple tuple' heq
  exact congrArg SystemState.locations heq

theorem mem_startsIn_iff : s ∈ c.startsIn env ↔
    s.env = env ∧ List.Forall₂ (fun l g => l ∈ g.initial) s.locations c.processes := by
  rcases s with ⟨locations, env'⟩
  rw [startsIn, List.mem_map, ← mem_initialTuples_iff]
  constructor
  · rintro ⟨tuple, htuple, heq⟩
    cases heq
    exact ⟨rfl, htuple⟩
  · rintro ⟨rfl, htuple⟩
    exact ⟨locations, htuple, rfl⟩

theorem length_startsIn (c : ChannelSystem L) (env : Environment) :
    (c.startsIn env).length = (c.processes.map (·.initial.size)).prod := by
  rw [startsIn, List.length_map, initialTuples, length_choices, List.map_map]
  rfl

/-- The initialization is all that handlers are asked for, whatever else they do. -/
theorem run_initialStates {m : Type → Type} [Monad m] (c : ChannelSystem L) (r : Registry m) :
    (c.initialStates r).run =
      (r.runInitialization .empty c.initializationActions).run >>= fun answer =>
        pure (answer.map c.startsIn) := by
  unfold initialStates
  rw [ExceptT.run_bind]
  congr 1
  funext answer
  cases answer <;> rfl

/-- The starts of a channel system are found by running the initialization actions of all
    processes in order, from nothing, whatever effects the handlers have. Where handlers are
    functions, this fails exactly with the error of the first action that does not go through.
    Otherwise the starts are the tuples of initial locations, each once and all in the
    environment that the actions have made, and their number is the product of the numbers of
    initial locations. -/
theorem starts_are_tuples_after_initialization (c : ChannelSystem L) :
    let actions := c.processes.flatMap fun g => g.initializations.flatten
    (∀ (m : Type → Type) [Monad m] (r : Registry m), (c.initialStates r).run =
      (r.runInitialization .empty actions).run >>= fun answer => pure (answer.map c.startsIn)) ∧
    (∀ (r : Registry Id) (e : EvalError), (c.initialStates r).run = .error e ↔
      ∃ before action after env, actions = before ++ action :: after ∧
        r.GoesThrough .empty before env ∧ r.StopsAt env action e) ∧
    (∀ (r : Registry Id) (starts : List (SystemState L)), (c.initialStates r).run = .ok starts ↔
      ∃ env, r.GoesThrough .empty actions env ∧ starts = c.startsIn env) ∧
    ∀ env, (c.startsIn env).Nodup ∧
      (∀ s, s ∈ c.startsIn env ↔
        s.env = env ∧ List.Forall₂ (fun l g => l ∈ g.initial) s.locations c.processes) ∧
      (c.startsIn env).length = (c.processes.map (·.initial.size)).prod ∧
      (c.processes = [] → c.startsIn env = [⟨[], env⟩]) ∧
      (c.startsIn env = [] ↔ ∃ g ∈ c.processes, g.initial.size = 0) := by
  intro actions
  -- Handlers that are functions have nothing to do in between.
  have hpure : ∀ r : Registry Id, (c.initialStates r).run =
      (r.runInitialization .empty actions).run.map c.startsIn := c.run_initialStates
  refine ⟨fun m _ r => c.run_initialStates r, ?_, ?_, ?_⟩
  · intro r e
    rw [hpure, ← Registry.run_runInitialization_eq_error_iff]
    cases (r.runInitialization .empty actions).run <;> simp [Except.map]
  · intro r starts
    rw [hpure]
    simp only [← Registry.run_runInitialization_eq_ok_iff]
    cases (r.runInitialization .empty actions).run <;> simp [Except.map, eq_comm]
  · intro env
    refine ⟨c.nodup_startsIn env, fun s => mem_startsIn_iff, c.length_startsIn env, ?_, ?_⟩
    · intro hnone
      simp [startsIn, initialTuples, choices, hnone]
    · rw [← List.length_eq_zero_iff, length_startsIn, List.prod_eq_zero_iff, List.mem_map]

end ChannelSystem

end Interleaving
