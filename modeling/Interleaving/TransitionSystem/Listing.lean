import Interleaving.Text.Sorted
import Interleaving.TransitionSystem

/-!
# Listings

A transition system written out as lists that depend on nothing but the system
and an order of its states. The states may be kept in the order of their
numbers, or be put into a linear order and numbered anew; everything that refers
to a state follows.

## Main definitions

* `Listing`: Everything in a transition system, as lists.
* `TransitionSystem.listing`: The listing for an order of the states.
* `TransitionSystem.idsInOrder`, `TransitionSystem.idsSorted`: The two orders.
-/

namespace Interleaving

/-- A transition system over texts, written out. States are referred to by
    their place in `states`. -/
structure Listing (S : Type) where
  states : List S
  /-- Initial states, by place. -/
  initial : List Nat
  /-- Actions, by code point. -/
  actions : List String
  /-- Transitions, by source, action and target. -/
  transitions : List (Transition Nat String)
  /-- Propositions, by code point. -/
  propositions : List String
  /-- The labels of each state, by code point. -/
  labels : List (List String)

namespace TransitionSystem

variable {S A P : Type}

/-- The numbers of the states as they are. -/
def idsInOrder (t : TransitionSystem S A P) : List Nat :=
  List.range t.states.size

/-- The numbers of the states by the linear order of the states. -/
def idsSorted [Ord S] (t : TransitionSystem S A P) : List Nat :=
  let numbered := t.states.toList.zipIdx
  (numbered.mergeSort fun a b => (compare a.1 b.1).isLE).map (·.2)

/-- A transition between places in a list of numbers. -/
def renumber (ids : List Nat) (step : Transition Nat A) : Option (Transition Nat A) := do
  return ⟨← ids.idxOf? step.source, step.action, ← ids.idxOf? step.target⟩

/-- The system written out, its states in the order of `ids`. -/
def listing (t : TransitionSystem S String String) (ids : List Nat) : Listing S where
  states := ids.filterMap t.state?
  initial := sortByOrder (t.initial.toList.filterMap ids.idxOf?)
  actions := Text.sortedSet t.actions.toList
  transitions := sortByOrder (t.transitions.toList.filterMap (renumber ids))
  propositions := Text.sortedSet t.propositions.toList
  labels := (ids.filterMap t.labelsAt?).map fun labels => Text.sortedSet labels.toList

end TransitionSystem

end Interleaving
