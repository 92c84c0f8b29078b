import Interleaving.Proofs.Exploration.Progress

/-!
# Entering the Initial States

Before the first level there are only the initial states, each of them once and
all of them marked. The state space may list a state more than once; the second
time it is known and marked already, and nothing changes.

## Main definitions

* `TransitionSystem.withInitial`: A system with one more initial state.
* `Entered`: A system of initial states and nothing else.

## Theorems

* `Entered.enterInitial`: Entering initial states never fails, and they come in order.
* `Entered.progress`: No state is expanded yet.
-/

namespace Interleaving

variable {σ ι : Type}

/-- The system with a new state at the end that is initial. -/
def TransitionSystem.withInitial {S A P : Type} [DecidableEq S] (t : TransitionSystem S A P)
    (s : S) : TransitionSystem S A P :=
  { t.withState s with initial := t.initial.insert t.states.size }

theorem TransitionSystem.states_withInitial {S A P : Type} [DecidableEq S]
    (t : TransitionSystem S A P) (s : S) : (t.withInitial s).states = t.states.insert s :=
  t.states_withState s

theorem TransitionSystem.size_withInitial {S A P : Type} [DecidableEq S]
    {t : TransitionSystem S A P} {s : S} (h : s ∉ t.states) :
    (t.withInitial s).states.size = t.states.size + 1 :=
  size_withState h

/-- A system of initial states and nothing else. -/
structure Entered (system : TransitionSystem σ String String) : Prop where
  labels_eq : system.labels = List.replicate system.states.size .empty
  propositions_eq : system.propositions = .empty
  actions_eq : system.actions = .empty
  transitions_eq : system.transitions = .empty
  mem_initial_iff : ∀ id, id ∈ system.initial ↔ id < system.states.size

namespace Entered

variable {system : TransitionSystem σ String String}

theorem empty : Entered (.empty : TransitionSystem σ String String) where
  labels_eq := rfl
  propositions_eq := rfl
  actions_eq := rfl
  transitions_eq := rfl
  mem_initial_iff := by
    intro id
    constructor
    · intro h
      cases h
    · intro h
      cases h

/-- A state that is known is marked already. -/
theorem after_markInitial (h : Entered system) {id : Nat} {s : σ}
    (hs : system.state? id = some s) : system.after (Change.markInitial id) = .ok system := by
  have hmem : id ∈ system.initial :=
    (h.mem_initial_iff id).mpr (TransitionSystem.lt_size_of_state? hs)
  rw [TransitionSystem.after_markInitial hs, OrderedSet.insert_of_mem hmem]

/-- No state is expanded yet. -/
theorem progress {d : Dynamics Id σ ι} (h : Entered system)
    (hstart : ∀ s, d.Starts s ↔ s ∈ system.states) : Progress d system 0 [] := by
  have hnone : ∀ step, step ∉ system.transitions := by
    intro step hstep
    rw [h.transitions_eq] at hstep
    cases hstep
  have hinitial : ∀ id, id ∈ system.initial ↔ ∃ s, system.state? id = some s ∧ d.Starts s := by
    intro id
    rw [h.mem_initial_iff id]
    constructor
    · intro hid
      rcases TransitionSystem.exists_state?_of_lt hid with ⟨s, hs⟩
      exact ⟨s, hs, (hstart s).mpr (TransitionSystem.mem_states_of_state? hs)⟩
    · intro hid
      rcases hid with ⟨s, hs, -⟩
      exact TransitionSystem.lt_size_of_state? hs
  have hactions : ∀ action, action ∈ system.actions ↔
      ∃ step ∈ system.transitions, step.action = action := by
    intro action
    constructor
    · intro haction
      rw [h.actions_eq] at haction
      cases haction
    · intro hstep
      rcases hstep with ⟨step, hstep, -⟩
      exact absurd hstep (hnone step)
  exact
    { labels_eq := h.labels_eq
      propositions_eq := h.propositions_eq
      start_mem := fun s hs => (hstart s).mp hs
      mem_initial_iff := hinitial
      mem_actions_iff := hactions
      source_lt := fun step hstep => absurd hstep (hnone step)
      source_le := fun step hstep => absurd hstep (hnone step)
      expanded := fun id s hid => absurd hid (Nat.not_lt_zero id)
      current := fun s _ => Records.nil fun step hstep => absurd hstep (hnone step) }

variable [DecidableEq σ]

theorem withInitial (h : Entered system) {s : σ} (hs : s ∉ system.states) :
    Entered (system.withInitial s) where
  labels_eq := by
    rw [TransitionSystem.size_withInitial hs, List.replicate_succ', ← h.labels_eq]
    rfl
  propositions_eq := h.propositions_eq
  actions_eq := h.actions_eq
  transitions_eq := h.transitions_eq
  mem_initial_iff := by
    intro id
    rw [TransitionSystem.size_withInitial hs, TransitionSystem.withInitial]
    simp only [OrderedSet.mem_insert, h.mem_initial_iff]
    omega

/-- Entering initial states never fails. The new ones get the next numbers, in
    order, and these are the frontier. -/
theorem enterInitial (h : Entered system) (starts : List σ) :
    ∃ system', Dynamics.enterInitial starts system =
        .ok (system', List.range' system.states.size (system'.states.size - system.states.size)) ∧
      Entered system' ∧ system.states.size ≤ system'.states.size ∧
      system'.states = starts.foldl OrderedSet.insert system.states := by
  induction starts generalizing system with
  | nil =>
      refine ⟨system, ?_, h, Nat.le_refl _, rfl⟩
      rw [Nat.sub_self, List.range'_zero]
      rfl
  | cons s rest ih =>
      by_cases hs : s ∈ system.states
      · rcases TransitionSystem.mem_states_iff.mp hs with ⟨id, hid⟩
        rcases ih h with ⟨system', hrun, hentered, hle, hstates⟩
        refine ⟨system', ?_, hentered, hle, ?_⟩
        · rw [Dynamics.enterInitial, TransitionSystem.insertState_of_mem hid]
          simp only [h.after_markInitial hid, hrun, bind, Except.bind]
          rfl
        · rw [hstates, List.foldl_cons, OrderedSet.insert_of_mem hs]
      · rcases ih (h.withInitial hs) with ⟨system', hrun, hentered, hle, hstates⟩
        rw [TransitionSystem.size_withInitial hs] at hrun hle
        rw [TransitionSystem.states_withInitial] at hstates
        refine ⟨system', ?_, hentered, by omega, hstates⟩
        have hmark : (system.withState s).after (Change.markInitial system.states.size) =
            .ok (system.withInitial s) :=
          TransitionSystem.after_markInitial (TransitionSystem.state?_withState_size hs)
        have hcount : system'.states.size - system.states.size =
            system'.states.size - (system.states.size + 1) + 1 := by
          omega
        rw [Dynamics.enterInitial, TransitionSystem.insertState_of_not_mem hs, hcount,
          List.range'_succ]
        simp only [hmark, hrun, bind, Except.bind]
        rfl

/-- What comes of the initial states of a search. -/
theorem of_enterInitial {starts : List σ} {frontier : List Nat}
    (h : Dynamics.enterInitial starts .empty = .ok (system, frontier)) :
    Entered system ∧ frontier = List.range' 0 system.states.size ∧
      system.states = .ofList starts := by
  rcases empty.enterInitial starts with ⟨system', hrun, hentered, -, hstates⟩
  rw [h, Except.ok.injEq, Prod.mk.injEq] at hrun
  rcases hrun with ⟨rfl, rfl⟩
  exact ⟨hentered, rfl, hstates⟩

end Entered

end Interleaving
