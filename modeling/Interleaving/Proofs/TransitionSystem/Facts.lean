import Interleaving.Proofs.TransitionSystem.Coherence

/-!
# What a Call Adds

A system read as a list of facts has, after a call that is accepted, exactly one more: the
fact that the call asserts. For a new state this is because its labels are empty, and for a
label because the labels of a number in range are there to be added to; the latter needs a
coherent system. If the fact was there before, nothing new comes, and a call whose answer
tells whether something is new says so.

Since a call adds a fact or does nothing, no sequence of calls takes a fact away. In
particular a state keeps its number.

## Theorems

* `TransitionSystem.has_enter_iff`: The system with one more fact has that fact and no other.
* `TransitionSystem.has_built_append`: Facts stay.
* `call_refused_or_adds_its_fact`: All of this for every system put together by calls.
-/

namespace Interleaving

variable {S A P : Type} [DecidableEq S] {t t' : TransitionSystem S A P}

namespace TransitionSystem

/-- A new state brings the fact that it is there, and its labels say nothing yet. -/
theorem has_withState_iff {s : S} (hs : s ∉ t.states) (other : Fact S A P) :
    (t.withState s).Has other ↔ other = .state t.states.size s ∨ t.Has other := by
  cases other with
  | state id u =>
      -- The number after the last one was nobody's.
      have hfree : t.state? t.states.size = none := List.getElem?_eq_none (Nat.le_refl _)
      simp only [Has, state?_withState hs, Fact.state.injEq]
      by_cases hid : id = t.states.size
      · simp [hid, hfree, eq_comm]
      · simp [hid]
  | label id p =>
      simp only [Has, labelsAt?, withState, reduceCtorEq, false_or]
      by_cases hid : id < t.labels.length
      · rw [List.getElem?_append_left hid]
      · have hnone : t.labels[id]? = none := List.getElem?_eq_none (Nat.le_of_not_lt hid)
        rw [List.getElem?_append_right (Nat.le_of_not_lt hid), hnone]
        constructor
        · intro h
          rcases h with ⟨labels, hlabels, hp⟩
          rw [List.mem_singleton.mp (List.mem_of_getElem? hlabels)] at hp
          exact absurd hp List.not_mem_nil
        · intro h
          rcases h with ⟨labels, hlabels, -⟩
          cases hlabels
  | initial id => simp [Has, withState]
  | action a => simp [Has, withState]
  | transition step => simp [Has, withState]
  | proposition p => simp [Has, withState]

variable [DecidableEq A] [DecidableEq P]

/-- In a coherent system the labels of a number in range are there to be added to. -/
theorem has_enter_label_iff (h : t.Coherent) {id : Nat} (hid : id < t.states.size) (p : P)
    (other : Fact S A P) :
    (t.enter (.label id p)).Has other ↔ other = .label id p ∨ t.Has other := by
  rw [← h.length_labels] at hid
  cases other with
  | label id' p' =>
      simp only [Has, enter, labelsAt?, List.getElem?_modify, Option.map_eq_map,
        Option.map_eq_some_iff, Fact.label.injEq]
      by_cases heq : id = id'
      · subst heq
        simp [hid]
      · simp [heq, Ne.symm heq]
  | state id s => simp [Has, enter, state?, states]
  | initial id => simp [Has, enter]
  | action a => simp [Has, enter]
  | transition step => simp [Has, enter]
  | proposition p => simp [Has, enter]

/-- One more fact is one more fact: what was there stays, and nothing else comes. -/
theorem has_enter_iff (h : t.Coherent) {fact : Fact S A P} (hadmits : t.Admits fact)
    (other : Fact S A P) : (t.enter fact).Has other ↔ other = fact ∨ t.Has other := by
  cases fact with
  | state id s =>
      by_cases hs : s ∈ t.states
      · -- The state is there already, under this number.
        rcases mem_states_iff.mp hs with ⟨id', hid'⟩
        simp only [Admits, insertState_of_mem hid'] at hadmits
        simp only [enter, insertState_of_mem hid', hadmits, iff_or_self]
        rintro rfl
        exact hid'
      · simp only [Admits, insertState_of_not_mem hs] at hadmits
        simp only [enter, insertState_of_not_mem hs, hadmits]
        exact has_withState_iff hs other
  | label id p => exact has_enter_label_iff h hadmits.1 p other
  | initial id => cases other <;> simp [Has, enter, state?, states, labelsAt?]
  | action a => cases other <;> simp [Has, enter, state?, states, labelsAt?]
  | transition step => cases other <;> simp [Has, enter, state?, states, labelsAt?]
  | proposition p => cases other <;> simp [Has, enter, state?, states, labelsAt?]

end TransitionSystem

section Calls

open TransitionSystem

variable [DecidableEq A] [DecidableEq P]

/-- A call takes no fact away. -/
theorem Call.has_apply (ht : t.Coherent) (call : Call S A P) {fact : Fact S A P}
    (h : t.Has fact) : (call.apply t).Has fact := by
  rcases call.apply_cases t with ⟨new, -, hadmits, heq⟩ | ⟨-, heq⟩
  · rw [heq, has_enter_iff ht hadmits]
    exact Or.inr h
  · rw [heq]
    exact h

/-- Neither does a sequence of calls, by induction along the later ones. -/
theorem TransitionSystem.has_built_append (calls more : List (Call S A P)) {fact : Fact S A P}
    (h : (built calls).Has fact) : (built (calls ++ more)).Has fact := by
  induction more using List.reverseRecOn with
  | nil =>
      rw [List.append_nil]
      exact h
  | append_singleton more call ih =>
      rw [← List.append_assoc, built_append_singleton]
      exact call.has_apply (coherent_built _) ih

/-- In a system put together by calls, a further call is refused exactly if something that it
    refers to is absent, with the first such thing, and the system that it leaves is the one
    that it found. If it is accepted, it enters the fact that it asserts, and the system has
    this fact, the facts it had and no others; an answer tells the number that the fact is
    about, or whether it is new. Whatever calls come later, no fact is lost, and the states
    keep their numbers. -/
theorem call_refused_or_adds_its_fact (calls : List (Call S A P)) (call : Call S A P) :
    let t := TransitionSystem.built calls
    ((∃ e t', call.change.run t = .error e t') ↔
        ∃ ref ∈ call.references, t.lacks ref = true) ∧
      (∀ e t', call.change.run t = .error e t' ↔
        call.references.find? t.lacks = some e ∧ t' = t) ∧
      (∀ e, call.references.find? t.lacks = some e → call.apply t = t) ∧
      (∀ answer t', call.change.run t = .ok answer t' → call.apply t = t' ∧
        ∃ fact, call.Asserts t fact ∧ t' = t.enter fact ∧
          (∀ other, t'.Has other ↔ other = fact ∨ t.Has other) ∧ answer.Tells t fact) ∧
      ∀ more, (∀ fact, t.Has fact → (TransitionSystem.built (calls ++ more)).Has fact) ∧
        ∀ s id, t.idOf? s = some id →
          (TransitionSystem.built (calls ++ more)).idOf? s = some id := by
  intro t
  have hrefuses := call.refuses_change t
  refine ⟨?_, hrefuses, ?_, ?_, ?_⟩
  · rw [← List.find?_isSome, Option.isSome_iff_exists]
    refine exists_congr fun e => ?_
    simp only [hrefuses e, exists_and_left, exists_eq, and_true]
  · intro e hfirst
    have hrun : call.change.run t = .error e t := (hrefuses e t).mpr ⟨hfirst, rfl⟩
    rw [Call.apply, hrun]
  · intro answer t' hrun
    rcases Call.exists_asserts_of_run hrun with ⟨fact, hasserts, hadmits, rfl, htells⟩
    exact ⟨by rw [Call.apply, hrun], fact, hasserts, rfl,
      has_enter_iff (coherent_built calls) hadmits, htells⟩
  · intro more
    refine ⟨fun fact => has_built_append calls more, ?_⟩
    intro s id hid
    rw [idOf?_eq_some_iff] at hid ⊢
    have hfact : t.Has (.state id s) := hid
    exact has_built_append calls more hfact

end Calls

end Interleaving
