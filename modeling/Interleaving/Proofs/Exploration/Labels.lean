import Interleaving.Proofs.Exploration.Progress

/-!
# Labelling the States

At the end of a search every state that was kept gets its labels. This touches
the labels and the propositions and nothing else, it cannot fail, and it looks
at each state once; so if there were no labels before, then afterwards each
state has exactly those that the state space gives it.

## Main definitions

* `TransitionSystem.withLabels`: A system with more labels at one state.
* `Labelled`: What labelling some of the states does to a system.
* `Dynamics.labelled`: A system with the labels of its states.

## Theorems

* `labelState_eq_ok`: Labelling one state.
* `labelStates_eq_ok`: Labelling all states.
* `labelStates_eq_labelled`: What comes out of it, if there were no labels.
* `Labelled.labelsAt?_of_empty`, `Labelled.labelsOf?_of_empty`: States without labels get
  exactly their own.
-/

namespace Interleaving

variable {σ ι : Type}

/-- The system with more labels at one state, and their propositions with them. -/
def TransitionSystem.withLabels {S A P : Type} [DecidableEq P] (t : TransitionSystem S A P)
    (id : Nat) (ps : List P) : TransitionSystem S A P :=
  { t with
    propositions := ps.foldl OrderedSet.insert t.propositions
    labels := t.labels.modify id (ps.foldl OrderedSet.insert ·) }

theorem TransitionSystem.withLabels_withLabel {S A P : Type} [DecidableEq P]
    (t : TransitionSystem S A P) (id : Nat) (p : P) (ps : List P) :
    (t.withLabel id p).withLabels id ps = t.withLabels id (p :: ps) := by
  simp only [withLabels, withLabel, List.modify_modify_eq, List.foldl_cons, Function.comp_def]

/-- Labelling a state that is known cannot fail. -/
theorem labelState_eq_ok {system : TransitionSystem σ String String} {id : Nat} {s : σ}
    (h : system.state? id = some s) (ps : List String) :
    Dynamics.labelState id system ps = .ok (system.withLabels id ps) := by
  induction ps generalizing system with
  | nil =>
      have hsame : system.labels.modify id (fun labels => labels) = system.labels :=
        List.modify_id id system.labels
      simp only [TransitionSystem.withLabels, List.foldl_nil, hsame]
      rfl
  | cons p ps ih =>
      have hnext : (system.withLabel id p).state? id = some s := h
      rw [← TransitionSystem.withLabels_withLabel, ← ih hnext]
      rw [Dynamics.labelState, List.foldlM_cons, TransitionSystem.after_enterLabel h]
      rfl

/-- What labelling the states of a list does to a system. The list has the
    states with their numbers. -/
structure Labelled (d : Dynamics Id σ ι) (pairs : List (σ × Nat))
    (system system' : TransitionSystem σ String String) : Prop where
  states_eq : system'.states = system.states
  initial_eq : system'.initial = system.initial
  actions_eq : system'.actions = system.actions
  transitions_eq : system'.transitions = system.transitions
  mem_propositions_iff : ∀ p, p ∈ system'.propositions ↔
    p ∈ system.propositions ∨ ∃ pair ∈ pairs, p ∈ d.labels pair.1
  labelsAt? : ∀ id labels, system.labelsAt? id = some labels →
    ∃ labels', system'.labelsAt? id = some labels' ∧
      ∀ p, p ∈ labels' ↔ p ∈ labels ∨ ∃ s, (s, id) ∈ pairs ∧ p ∈ d.labels s

namespace Labelled

variable {d : Dynamics Id σ ι} {pairs : List (σ × Nat)}
  {system system' : TransitionSystem σ String String}

theorem nil : Labelled d [] system system where
  states_eq := rfl
  initial_eq := rfl
  actions_eq := rfl
  transitions_eq := rfl
  mem_propositions_iff := by
    intro p
    simp only [List.not_mem_nil, false_and, exists_false, or_false]
  labelsAt? := by
    intro id labels h
    refine ⟨labels, h, ?_⟩
    intro p
    simp only [List.not_mem_nil, false_and, exists_false, or_false]

/-- One state first, then the others. -/
theorem cons {s : σ} {id : Nat} (h : Labelled d pairs (system.withLabels id (d.labels s)) system') :
    Labelled d ((s, id) :: pairs) system system' where
  states_eq := h.states_eq
  initial_eq := h.initial_eq
  actions_eq := h.actions_eq
  transitions_eq := h.transitions_eq
  mem_propositions_iff := by
    intro p
    rw [h.mem_propositions_iff p]
    simp only [TransitionSystem.withLabels, OrderedSet.mem_foldl_insert, List.mem_cons,
      exists_eq_or_imp, or_assoc]
  labelsAt? := by
    intro id' labels hlabels
    by_cases hid : id' = id
    · -- The state itself: its labels come to those that were there.
      have hmid : (system.withLabels id (d.labels s)).labelsAt? id' =
          some ((d.labels s).foldl OrderedSet.insert labels) := by
        rw [TransitionSystem.labelsAt?] at hlabels
        rw [TransitionSystem.labelsAt?, TransitionSystem.withLabels, hid,
          List.getElem?_modify_eq, ← hid, hlabels]
        rfl
      rcases h.labelsAt? id' _ hmid with ⟨labels', hlabels', hmem⟩
      refine ⟨labels', hlabels', ?_⟩
      intro p
      rw [hmem p, OrderedSet.mem_foldl_insert, or_assoc]
      simp only [List.mem_cons, Prod.mk.injEq, hid, and_true, or_and_right, exists_or,
        exists_eq_left]
    · -- Another state: nothing has happened to it yet.
      have hmid : (system.withLabels id (d.labels s)).labelsAt? id' = some labels := by
        rw [TransitionSystem.labelsAt?] at hlabels
        rw [TransitionSystem.labelsAt?, TransitionSystem.withLabels,
          List.getElem?_modify_ne _ _ (Ne.symm hid), hlabels]
      rcases h.labelsAt? id' _ hmid with ⟨labels', hlabels', hmem⟩
      refine ⟨labels', hlabels', ?_⟩
      intro p
      rw [hmem p]
      simp only [List.mem_cons, Prod.mk.injEq, hid, and_false, false_or]

/-- Labelling changes no state, no mark and no transition. -/
theorem eq_with (h : Labelled d pairs system system') :
    system' = { system with
      propositions := system'.propositions
      labels := system'.labels } :=
  TransitionSystem.eq_of_states_eq h.states_eq h.initial_eq h.actions_eq h.transitions_eq rfl rfl

/-- If there were no labels, then each state has exactly its own. -/
theorem labelsAt?_of_empty
    (h : Labelled d system.states.toList.zipIdx system system')
    (hempty : system.labels = List.replicate system.states.size .empty) {id : Nat} {s : σ}
    (hs : system.state? id = some s) :
    ∃ labels, system'.labelsAt? id = some labels ∧ ∀ p, p ∈ labels ↔ p ∈ d.labels s := by
  have hbefore : system.labelsAt? id = some .empty := by
    rw [TransitionSystem.labelsAt?, hempty, List.getElem?_replicate,
      if_pos (TransitionSystem.lt_size_of_state? hs)]
  rcases h.labelsAt? id _ hbefore with ⟨labels, hlabels, hmem⟩
  refine ⟨labels, hlabels, ?_⟩
  intro p
  have hnone : p ∉ (.empty : OrderedSet String) := List.not_mem_nil
  rw [hmem p]
  constructor
  · intro hp
    rcases hp with hp | ⟨s', hs', hp⟩
    · exact absurd hp hnone
    · -- The list has one state for each number.
      have hget : system.state? id = some s' := List.mk_mem_zipIdx_iff_getElem?.mp hs'
      rw [hs, Option.some.injEq] at hget
      rw [hget]
      exact hp
  · intro hp
    exact Or.inr ⟨s, List.mk_mem_zipIdx_iff_getElem?.mpr hs, hp⟩

theorem labelsOf?_of_empty [DecidableEq σ]
    (h : Labelled d system.states.toList.zipIdx system system')
    (hempty : system.labels = List.replicate system.states.size .empty) {s : σ}
    (hs : s ∈ system.states) :
    ∃ labels, system'.labelsOf? s = some labels ∧ ∀ p, p ∈ labels ↔ p ∈ d.labels s := by
  rcases TransitionSystem.mem_states_iff.mp hs with ⟨id, hid⟩
  have hid' : system'.idOf? s = some id := by
    rw [TransitionSystem.idOf?_eq_some_iff, TransitionSystem.state?, h.states_eq]
    exact hid
  rcases h.labelsAt?_of_empty hempty hid with ⟨labels, hlabels, hmem⟩
  refine ⟨labels, ?_, hmem⟩
  rw [TransitionSystem.labelsOf?, hid']
  exact hlabels

end Labelled

/-- Labelling states that are known cannot fail. -/
theorem labelPairs_eq_ok {d : Dynamics Id σ ι} {system : TransitionSystem σ String String}
    {pairs : List (σ × Nat)} (h : ∀ pair ∈ pairs, system.state? pair.2 = some pair.1) :
    ∃ system', pairs.foldlM
        (fun system (s, id) => Dynamics.labelState id system (d.labels s)) system = .ok system' ∧
      Labelled d pairs system system' := by
  induction pairs generalizing system with
  | nil => exact ⟨system, rfl, .nil⟩
  | cons pair pairs ih =>
      rcases pair with ⟨s, id⟩
      have hs : system.state? id = some s := h (s, id) List.mem_cons_self
      have hrest : ∀ pair ∈ pairs,
          (system.withLabels id (d.labels s)).state? pair.2 = some pair.1 := by
        intro pair hpair
        exact h pair (List.mem_cons_of_mem _ hpair)
      rcases ih hrest with ⟨system', hrun, hlabelled⟩
      refine ⟨system', ?_, hlabelled.cons⟩
      simp only [List.foldlM_cons, labelState_eq_ok hs]
      exact hrun

/-- A system that had no labels, with the labels of its states. -/
def Dynamics.labelled {m : Type → Type} (d : Dynamics m σ ι)
    (system : TransitionSystem σ String String) : TransitionSystem σ String String :=
  { system with
    propositions := .ofList (system.states.toList.flatMap d.labels)
    labels := system.states.toList.map fun s => .ofList (d.labels s) }

/-- The states from some number on are labelled one after the other. Those before have
    their labels, which are `done`. -/
theorem labelFrom_eq_ok {m : Type → Type} {d : Dynamics m σ ι} {left : List σ} {k : Nat}
    {system : TransitionSystem σ String String} {done : List (OrderedSet String)}
    (hstates : ∀ i s, left[i]? = some s → system.state? (k + i) = some s)
    (hdone : done.length = k)
    (hlabels : system.labels = done ++ List.replicate left.length .empty) :
    (left.zipIdx k).foldlM
        (fun system (s, id) => Dynamics.labelState id system (d.labels s)) system =
      .ok { system with
        propositions := (left.flatMap d.labels).foldl OrderedSet.insert system.propositions
        labels := done ++ left.map fun s => .ofList (d.labels s) } := by
  induction left generalizing k system done with
  | nil =>
      rw [List.length_nil, List.replicate_zero] at hlabels
      rw [List.map_nil, ← hlabels]
      rfl
  | cons s rest ih =>
      have hs : system.state? k = some s := hstates 0 s rfl
      -- The first of the states without labels gets its own.
      have hnext : (system.withLabels k (d.labels s)).labels =
          (done ++ [.ofList (d.labels s)]) ++ List.replicate rest.length .empty := by
        have hlt : k < (done ++ List.replicate (rest.length + 1) OrderedSet.empty).length := by
          rw [List.length_append, List.length_replicate]
          omega
        rw [TransitionSystem.withLabels, hlabels, List.length_cons,
          List.modify_eq_take_cons_drop hlt]
        simp [← hdone, OrderedSet.ofList, List.replicate_succ]
      have hrest : ∀ i t, rest[i]? = some t →
          (system.withLabels k (d.labels s)).state? (k + 1 + i) = some t := by
        intro i t ht
        rw [Nat.add_right_comm]
        exact hstates (i + 1) t ht
      have hlength : (done ++ [OrderedSet.ofList (d.labels s)]).length = k + 1 := by
        rw [List.length_append, List.length_singleton, hdone]
      rw [List.zipIdx_cons, List.foldlM_cons]
      simp only [labelState_eq_ok hs]
      refine (ih hrest hlength hnext).trans ?_
      simp [TransitionSystem.withLabels, List.foldl_append]

/-- If there were no labels, then labelling all states gives exactly theirs. -/
theorem labelStates_eq_labelled {m : Type → Type} (d : Dynamics m σ ι)
    {system : TransitionSystem σ String String}
    (hlabels : system.labels = List.replicate system.states.size .empty)
    (hpropositions : system.propositions = .empty) :
    d.labelStates system = .ok (d.labelled system) := by
  have hstates : ∀ i s, system.states.toList[i]? = some s → system.state? (0 + i) = some s := by
    intro i s hs
    rw [Nat.zero_add]
    exact hs
  refine (labelFrom_eq_ok hstates List.length_nil hlabels).trans ?_
  rw [hpropositions]
  rfl

theorem labelStates_eq_ok (d : Dynamics Id σ ι) (system : TransitionSystem σ String String) :
    ∃ system', d.labelStates system = .ok system' ∧
      Labelled d system.states.toList.zipIdx system system' := by
  refine labelPairs_eq_ok ?_
  intro pair hpair
  exact List.mem_zipIdx_iff_getElem?.mp hpair

end Interleaving
