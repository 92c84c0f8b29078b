/-!
# Sorted Sets of Texts

A finite set of texts listed by code point, each text once. Propositions of a
state, and the actions and propositions of a transition system, are sets whose
members have to be listed in an order that depends on nothing but the members;
this is that listing.

## Main definitions

* `Text.insertSorted`: Adds a text to a sorted set.
* `Text.sortedSet`: The sorted set of the texts of a list.

## Theorems

* `Text.sortedSet_pairwise`: The listing is strictly increasing.
* `Text.mem_sortedSet`: It has the members of the list it was made from.
-/

namespace Interleaving

namespace Text

/-- Adds a text to a strictly increasing list, in its place. -/
def insertSorted (text : String) : List String → List String
  | [] => [text]
  | head :: rest =>
    if text < head then text :: head :: rest
    else if head < text then head :: insertSorted text rest
    else head :: rest

/-- The texts of a list by code point, each once. -/
def sortedSet (texts : List String) : List String :=
  texts.foldr insertSorted []

/-- Two texts neither of which is smaller are the same text. -/
theorem eq_of_not_lt {a b : String} (hab : ¬ a < b) (hba : ¬ b < a) : a = b :=
  String.le_antisymm (String.not_lt.mp hba) (String.not_lt.mp hab)

theorem mem_insertSorted {a text : String} {l : List String} :
    a ∈ insertSorted text l ↔ a = text ∨ a ∈ l := by
  induction l with
  | nil => simp [insertSorted]
  | cons head rest ih =>
    rw [insertSorted]
    split
    · simp
    · split
      · simp only [List.mem_cons, ih]
        exact or_left_comm
      · next hlt hgt =>
        have heq : text = head := eq_of_not_lt hlt hgt
        simp [heq]

theorem insertSorted_pairwise {text : String} {l : List String}
    (h : l.Pairwise (· < ·)) : (insertSorted text l).Pairwise (· < ·) := by
  induction l with
  | nil => simp [insertSorted]
  | cons head rest ih =>
    have htail := List.pairwise_cons.mp h
    rw [insertSorted]
    split
    · next hlt =>
      refine List.pairwise_cons.mpr ⟨fun b hb => ?_, h⟩
      rcases List.mem_cons.mp hb with rfl | hb
      · exact hlt
      · exact String.lt_trans hlt (htail.1 b hb)
    · split
      · next hgt =>
        refine List.pairwise_cons.mpr ⟨fun b hb => ?_, ih htail.2⟩
        rcases mem_insertSorted.mp hb with rfl | hb
        · exact hgt
        · exact htail.1 b hb
      · exact h

@[simp] theorem mem_sortedSet {a : String} {texts : List String} :
    a ∈ sortedSet texts ↔ a ∈ texts := by
  induction texts with
  | nil => simp [sortedSet]
  | cons text rest ih =>
    rw [sortedSet, List.foldr_cons, mem_insertSorted]
    exact (or_congr_right ih).trans List.mem_cons.symm

theorem sortedSet_pairwise (texts : List String) : (sortedSet texts).Pairwise (· < ·) := by
  induction texts with
  | nil => exact List.Pairwise.nil
  | cons text rest ih => exact insertSorted_pairwise ih

end Text

end Interleaving
