import Interleaving.Proofs.TransitionSystem.Calls
import Mathlib.Data.List.Induction

/-!
# Coherent Systems

Whatever the calls were that put a system together, it is coherent: its numbers are numbers
of states, each state has its labels, and its transitions and labels mention only what was
declared. One more fact keeps a system coherent if everything it refers to is there, and a
call enters such a fact or does nothing; the rest is induction along the calls.

Nothing but a state that is handed in touches the arena, so list and index are what these
states make of them, one insertion after the other. An insertion keeps the two in step, and
so after any calls the index finds exactly the states of the list, each under its number.
The list has the states that were handed in, in the order in which each came first.

Marks, transitions and labels are read by looking up numbers. In a coherent system none of
these lookups comes back empty, so reading drops nothing.

## Main definitions

* `TransitionSystem.Coherent`: All references are to things that are there.
* `Arena.ofList`: The arena after a list of insertions.

## Theorems

* `TransitionSystem.Coherent.enter`: One more fact keeps a system coherent.
* `Arena.inStep_ofList`: Insertions keep list and index in step.
* `Arena.members_ofList`: First occurrences, in order.
* `TransitionSystem.arena_built`: List and index, through all calls.
* `built_coherent`: What is true of every system put together by calls.
-/

namespace Interleaving

variable {S A P : Type}

namespace Arena

variable {α : Type} [DecidableEq α]

/-- The arena after members were inserted, from nothing. -/
def ofList (l : List α) : Arena α :=
  l.foldl (fun arena x => (arena.insert x).1) .empty

theorem ofList_append_singleton (l : List α) (x : α) :
    ofList (l ++ [x]) = ((ofList l).insert x).1 := by
  rw [ofList, List.foldl_append]
  rfl

/-- Insertions keep list and index in step, by induction along them. -/
theorem inStep_ofList (l : List α) : (ofList l).InStep := by
  induction l using List.reverseRecOn with
  | nil => exact inStep_empty
  | append_singleton l x ih =>
      rw [ofList_append_singleton]
      exact ih.insert x

/-- The members stand at the places where they first came. The induction takes the last one
    off, for that is the one that comes in last. -/
theorem members_ofList (l : List α) : (ofList l).members = l.eraseDups := by
  induction l using List.reverseRecOn with
  | nil => rfl
  | append_singleton l x ih =>
      have hmem : x ∈ (ofList l).members ↔ x ∈ l := by rw [ih, List.mem_eraseDups]
      have hstep := inStep_ofList l
      rw [ofList_append_singleton, List.eraseDups_append]
      by_cases hx : x ∈ l
      · rcases List.mem_iff_getElem?.mp (hmem.mpr hx) with ⟨id, hid⟩
        rw [insert_of_getElem? hstep hid, ih]
        simp [List.removeAll, hx]
      · rw [insert_of_not_mem hstep (mt hmem.mp hx), ih]
        simp [List.removeAll, hx, List.eraseDups_cons]

end Arena

/-- All references of a system are to things that are there. -/
structure TransitionSystem.Coherent (t : TransitionSystem S A P) : Prop where
  /-- Each state has one set of labels. -/
  length_labels : t.labels.length = t.states.size
  initial_lt : ∀ id ∈ t.initial, id < t.states.size
  source_lt : ∀ step ∈ t.transitions, step.source < t.states.size
  target_lt : ∀ step ∈ t.transitions, step.target < t.states.size
  action_mem : ∀ step ∈ t.transitions, step.action ∈ t.actions
  label_mem : ∀ labels ∈ t.labels, ∀ p ∈ labels, p ∈ t.propositions

namespace TransitionSystem.Coherent

variable {t : TransitionSystem S A P}

theorem empty : (.empty : TransitionSystem S A P).Coherent where
  length_labels := rfl
  initial_lt := fun _ hid => absurd hid List.not_mem_nil
  source_lt := fun _ hstep => absurd hstep List.not_mem_nil
  target_lt := fun _ hstep => absurd hstep List.not_mem_nil
  action_mem := fun _ hstep => absurd hstep List.not_mem_nil
  label_mem := fun _ hlabels => absurd hlabels List.not_mem_nil

section Entering

/-- One more state: numbers that were in range stay there, and its labels are empty. -/
theorem withState [DecidableEq S] (h : t.Coherent) {s : S} (hs : s ∉ t.states) :
    (t.withState s).Coherent where
  length_labels := by
    rw [size_withState hs, ← h.length_labels]
    exact List.length_append
  initial_lt := by
    intro id hid
    rw [size_withState hs]
    exact Nat.lt_succ_of_lt (h.initial_lt id hid)
  source_lt := by
    intro step hstep
    rw [size_withState hs]
    exact Nat.lt_succ_of_lt (h.source_lt step hstep)
  target_lt := by
    intro step hstep
    rw [size_withState hs]
    exact Nat.lt_succ_of_lt (h.target_lt step hstep)
  action_mem := h.action_mem
  label_mem := by
    intro labels hlabels p hp
    rcases List.mem_append.mp hlabels with hold | hnew
    · exact h.label_mem labels hold p hp
    · rw [List.mem_singleton.mp hnew] at hp
      exact absurd hp List.not_mem_nil

theorem insertState [DecidableEq S] (h : t.Coherent) (s : S) : (t.insertState s).1.Coherent := by
  by_cases hs : s ∈ t.states
  · rcases mem_states_iff.mp hs with ⟨id, hid⟩
    rw [insertState_of_mem hid]
    exact h
  · rw [insertState_of_not_mem hs]
    exact h.withState hs

theorem mark (h : t.Coherent) {id : Nat} (hid : id < t.states.size) :
    { t with initial := t.initial.insert id }.Coherent := by
  refine { h with initial_lt := ?_ }
  intro id' hid'
  rcases OrderedSet.mem_insert.mp hid' with rfl | hold
  · exact hid
  · exact h.initial_lt id' hold

theorem action [DecidableEq A] (h : t.Coherent) (a : A) :
    { t with actions := t.actions.insert a }.Coherent :=
  { h with
    action_mem := fun step hstep => OrderedSet.mem_insert.mpr (Or.inr (h.action_mem step hstep)) }

theorem transition [DecidableEq A] (h : t.Coherent) {step : Transition Nat A}
    (hsource : step.source < t.states.size) (htarget : step.target < t.states.size)
    (haction : step.action ∈ t.actions) :
    { t with transitions := t.transitions.insert step }.Coherent := by
  -- What is asked of transitions holds of the new one, and held of the others.
  have hall : ∀ {q : Transition Nat A → Prop}, (∀ step ∈ t.transitions, q step) → q step →
      ∀ step' ∈ t.transitions.insert step, q step' := by
    intro q hold hnew step' hstep'
    rcases OrderedSet.mem_insert.mp hstep' with rfl | hstep'
    · exact hnew
    · exact hold step' hstep'
  exact
    { h with
      source_lt := hall h.source_lt hsource
      target_lt := hall h.target_lt htarget
      action_mem := hall h.action_mem haction }

theorem proposition [DecidableEq P] (h : t.Coherent) (p : P) :
    { t with propositions := t.propositions.insert p }.Coherent :=
  { h with
    label_mem := fun labels hlabels p' hp' =>
      OrderedSet.mem_insert.mpr (Or.inr (h.label_mem labels hlabels p' hp')) }

theorem label [DecidableEq P] (h : t.Coherent) (id : Nat) {p : P} (hp : p ∈ t.propositions) :
    { t with labels := t.labels.modify id (·.insert p) }.Coherent := by
  refine { h with length_labels := ?_, label_mem := ?_ }
  · exact (List.length_modify _ _ _).trans h.length_labels
  · intro labels hlabels p' hp'
    rcases List.mem_iff_getElem?.mp hlabels with ⟨id', hid'⟩
    rw [List.getElem?_modify, Option.map_eq_map, Option.map_eq_some_iff] at hid'
    rcases hid' with ⟨old, hold, heq⟩
    have hbefore := h.label_mem old (List.mem_of_getElem? hold)
    split at heq
    · rw [← heq] at hp'
      rcases OrderedSet.mem_insert.mp hp' with rfl | hp'
      · exact hp
      · exact hbefore p' hp'
    · exact hbefore p' (heq ▸ hp')

variable [DecidableEq S] [DecidableEq A] [DecidableEq P]

/-- One more fact keeps a system coherent, if all that it refers to is there. -/
theorem enter (h : t.Coherent) {fact : Fact S A P} (hadmits : t.Admits fact) :
    (t.enter fact).Coherent := by
  cases fact with
  | state id s => exact h.insertState s
  | initial id => exact h.mark hadmits
  | action a => exact h.action a
  | transition step => exact h.transition hadmits.1 hadmits.2.1 hadmits.2.2
  | proposition p => exact h.proposition p
  | label id p => exact h.label id hadmits.2

theorem apply (h : t.Coherent) (call : Call S A P) : (call.apply t).Coherent := by
  rcases call.apply_cases t with ⟨fact, -, hadmits, heq⟩ | ⟨-, heq⟩
  · rw [heq]
    exact h.enter hadmits
  · rw [heq]
    exact h

end Entering

section Reading

/-- Where every lookup finds something, none is dropped. -/
theorem map_eq_map_some_filterMap {α β : Type} {f : α → Option β} {l : List α}
    (h : ∀ a ∈ l, ∃ b, f a = some b) : l.map f = (l.filterMap f).map some := by
  induction l with
  | nil => rfl
  | cons a l ih =>
      rcases h a List.mem_cons_self with ⟨b, hb⟩
      rw [List.map_cons, List.filterMap_cons_some hb, List.map_cons, hb,
        ih fun a' ha' => h a' (List.mem_cons_of_mem a ha')]

/-- Every initial number stands for a state. -/
theorem map_state?_initialIds (h : t.Coherent) :
    t.initialIds.map t.state? = t.initialStates.map some := by
  refine map_eq_map_some_filterMap ?_
  intro id hid
  rw [initialIds, OrderedSet.sorted, sortByOrder, List.mem_mergeSort] at hid
  exact exists_state?_of_lt (h.initial_lt id hid)

/-- Both numbers of every transition stand for states. -/
theorem map_resolve?_transitions (h : t.Coherent) :
    t.transitions.toList.map t.resolve? = t.resolvedTransitions.map some := by
  refine map_eq_map_some_filterMap ?_
  intro step hstep
  rcases exists_state?_of_lt (h.source_lt step hstep) with ⟨s, hs⟩
  rcases exists_state?_of_lt (h.target_lt step hstep) with ⟨u, hu⟩
  exact ⟨⟨s, step.action, u⟩, resolve?_eq_some_iff.mpr ⟨hs, rfl, hu⟩⟩

/-- A state that is known has labels. -/
theorem exists_labelsOf? [DecidableEq S] (h : t.Coherent) {s : S} {id : Nat}
    (hid : t.idOf? s = some id) :
    ∃ labels, t.labelsAt? id = some labels ∧ t.labelsOf? s = some labels := by
  have hlt : id < t.labels.length := by
    rw [h.length_labels]
    exact lt_size_of_state? (idOf?_eq_some_iff.mp hid)
  refine ⟨t.labels[id], List.getElem?_eq_getElem hlt, ?_⟩
  rw [labelsOf?, hid]
  exact List.getElem?_eq_getElem hlt

end Reading

end TransitionSystem.Coherent

section Calls

variable [DecidableEq S] [DecidableEq A] [DecidableEq P]

/-- Only a state that is handed in touches list and index. -/
theorem Call.arena_apply (t : TransitionSystem S A P) (call : Call S A P) :
    (call.apply t).arena =
      call.inserts?.toList.foldl (fun arena s => (arena.insert s).1) t.arena := by
  rcases call.apply_cases t with ⟨fact, hasserts, -, heq⟩ | ⟨hrefers, heq⟩
  · rw [heq]
    cases hasserts <;> rfl
  · -- A state that is handed in is never refused.
    have hnone : call.inserts? = none := by
      cases call with
      | insertState s => exact absurd rfl hrefers
      | _ => rfl
    rw [heq, hnone]
    rfl

namespace TransitionSystem

/-- List and index are what the insertions among the calls make of them. -/
theorem arena_built (calls : List (Call S A P)) :
    (built calls).arena = .ofList (Call.inserted calls) := by
  induction calls using List.reverseRecOn with
  | nil => rfl
  | append_singleton calls call ih =>
      have hinserted : Call.inserted (calls ++ [call]) =
          Call.inserted calls ++ call.inserts?.toList := by
        rw [Call.inserted, List.filterMap_append, Call.inserted]
        cases hinserts : call.inserts? <;> simp [hinserts]
      rw [built_append_singleton, call.arena_apply, ih, hinserted, Arena.ofList, Arena.ofList,
        List.foldl_append]

/-- Every system put together by calls is coherent, by induction along the calls. -/
theorem coherent_built (calls : List (Call S A P)) : (built calls).Coherent := by
  induction calls using List.reverseRecOn with
  | nil => exact .empty
  | append_singleton calls call ih =>
      rw [built_append_singleton]
      exact ih.apply call

end TransitionSystem

/-- Whatever the calls were, accepted or refused, the states of the system are those that were
    handed in, each once and in the order of first occurrence, and the index has each of them
    under its number and nothing else, so that numbers and states determine each other; all
    references are to things that are there; and no lookup on the way to the initial states,
    the transitions or the labels of a state comes back empty. -/
theorem built_coherent (calls : List (Call S A P)) :
    let t := TransitionSystem.built calls
    t.states.toList.Nodup ∧ t.states.toList = (Call.inserted calls).eraseDups ∧
      t.arena.index = (Call.inserted calls).eraseDups.zipIdx ∧
      (∀ s id, t.idOf? s = some id ↔ t.state? id = some s) ∧ t.Coherent ∧
      t.initialIds.map t.state? = t.initialStates.map some ∧
      t.transitions.toList.map t.resolve? = t.resolvedTransitions.map some ∧
      ∀ s id, t.idOf? s = some id →
        ∃ labels, t.labelsAt? id = some labels ∧ t.labelsOf? s = some labels := by
  intro t
  have harena : t.arena = .ofList (Call.inserted calls) := TransitionSystem.arena_built calls
  have hstep : t.arena.InStep := by
    rw [harena]
    exact Arena.inStep_ofList _
  have hmembers : t.arena.members = (Call.inserted calls).eraseDups := by
    rw [harena, Arena.members_ofList]
  have hcoherent : t.Coherent := TransitionSystem.coherent_built calls
  refine ⟨hstep.nodup, hmembers, ?_, fun s id => Arena.find?_eq_some_iff hstep, hcoherent,
    hcoherent.map_state?_initialIds, hcoherent.map_resolve?_transitions,
    fun s id hid => hcoherent.exists_labelsOf? hid⟩
  rw [hstep.index_eq, hmembers]

end Calls

end Interleaving
