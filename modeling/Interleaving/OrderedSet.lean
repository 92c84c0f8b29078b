/-!
# Ordered Sets

Finite sets that remember the order in which their members came. A transition
system numbers its states by first arrival, so the place of a member is part of
the data; the type carries the proof that no member stands twice, which is what
makes the place of a member unique.

Two such sets may have the same members in different places. They are equal
only if the places agree as well; `sameMembers` is the comparison of the sets
alone.

## Main definitions

* `OrderedSet`: A list without repetitions.
* `OrderedSet.insert`: Adds a member at the end, unless it is there already.
* `OrderedSet.idxOf?`: The place of a member.
* `OrderedSet.sorted`: The members by a linear order.

## Theorems

* `OrderedSet.mem_insert`, `OrderedSet.mem_erase`: What the operations do to
  membership.
* `OrderedSet.toList_insert_of_not_mem`: A new member stands at the end.
* `OrderedSet.idxOf?_eq_some_iff`: The place of a member is the one place where
  it stands.
* `OrderedSet.get?_insert_of_not_mem`: What stands where after an insertion.
-/

namespace Interleaving

/-- A finite set whose members stand in the order in which they came. -/
structure OrderedSet (α : Type) where
  /-- The members, in order. -/
  toList : List α
  /-- No member stands twice. -/
  nodup : toList.Nodup
  deriving DecidableEq

namespace OrderedSet

variable {α : Type}

/-- The set without members. -/
def empty : OrderedSet α :=
  ⟨[], List.Pairwise.nil⟩

instance : Inhabited (OrderedSet α) :=
  ⟨empty⟩

instance : Membership α (OrderedSet α) where
  mem s a := a ∈ s.toList

theorem mem_toList {s : OrderedSet α} {a : α} : a ∈ s.toList ↔ a ∈ s :=
  Iff.rfl

theorem eq_of_toList_eq {s t : OrderedSet α} (h : s.toList = t.toList) : s = t := by
  cases s
  cases t
  cases h
  rfl

/-- The number of members. -/
def size (s : OrderedSet α) : Nat :=
  s.toList.length

/-- Whether there are no members. -/
def isEmpty (s : OrderedSet α) : Bool :=
  s.toList.isEmpty

/-- The member at a place. -/
def get? (s : OrderedSet α) (i : Nat) : Option α :=
  s.toList[i]?

theorem nodup_append_singleton {l : List α} {a : α} (h : l.Nodup) (ha : a ∉ l) :
    (l ++ [a]).Nodup := by
  refine List.nodup_append.mpr ⟨h, List.pairwise_singleton _ _, fun b hb c hc => ?_⟩
  rw [List.mem_singleton.mp hc]
  exact fun heq => ha (heq ▸ hb)

theorem lt_size_of_get? {s : OrderedSet α} {i : Nat} {a : α} (h : s.get? i = some a) :
    i < s.size :=
  (List.getElem?_eq_some_iff.mp h).1

theorem exists_get?_of_lt {s : OrderedSet α} {i : Nat} (h : i < s.size) :
    ∃ a, s.get? i = some a :=
  ⟨s.toList[i], List.getElem?_eq_getElem h⟩

theorem mem_iff_exists_get? {s : OrderedSet α} {a : α} : a ∈ s ↔ ∃ i, s.get? i = some a :=
  List.mem_iff_getElem?

variable [DecidableEq α]

instance (s : OrderedSet α) (a : α) : Decidable (a ∈ s) :=
  inferInstanceAs (Decidable (a ∈ s.toList))

/-- Adds `a` at the end, unless it is a member already. -/
def insert (s : OrderedSet α) (a : α) : OrderedSet α :=
  if h : a ∈ s.toList then s else ⟨s.toList ++ [a], nodup_append_singleton s.nodup h⟩

/-- Removes `a`. The other members keep their order. -/
def erase (s : OrderedSet α) (a : α) : OrderedSet α :=
  ⟨s.toList.filter (fun b => b ≠ a), s.nodup.sublist List.filter_sublist⟩

/-- The place of `a`, counted from zero. -/
def idxOf? (s : OrderedSet α) (a : α) : Option Nat :=
  s.toList.idxOf? a

/-- The members of a list, at the places where they first occur. -/
def ofList (l : List α) : OrderedSet α :=
  l.foldl insert empty

/-- Whether two sets have the same members, in whatever order. -/
def sameMembers (s t : OrderedSet α) : Bool :=
  s.size = t.size && s.toList.all (· ∈ t)

@[simp] theorem mem_insert {s : OrderedSet α} {a b : α} : b ∈ s.insert a ↔ b = a ∨ b ∈ s := by
  show b ∈ (s.insert a).toList ↔ b = a ∨ b ∈ s.toList
  unfold insert
  split
  · next h => exact ⟨Or.inr, fun hb => hb.elim (fun hba => hba ▸ h) id⟩
  · rw [List.mem_append, List.mem_singleton]
    exact Or.comm

theorem mem_foldl_insert {l : List α} {s : OrderedSet α} {b : α} :
    b ∈ l.foldl insert s ↔ b ∈ s ∨ b ∈ l := by
  induction l generalizing s with
  | nil => rw [List.foldl_nil, iff_self_or]; exact fun h => absurd h List.not_mem_nil
  | cons a rest ih =>
    rw [List.foldl_cons, ih, mem_insert, List.mem_cons, or_assoc]
    exact or_left_comm

theorem mem_erase {s : OrderedSet α} {a b : α} : b ∈ s.erase a ↔ b ∈ s ∧ b ≠ a := by
  rw [← mem_toList, ← mem_toList, erase, List.mem_filter]
  simp

theorem insert_of_mem {s : OrderedSet α} {a : α} (h : a ∈ s) : s.insert a = s := by
  rw [insert, dif_pos (mem_toList.mpr h)]

theorem toList_insert_of_not_mem {s : OrderedSet α} {a : α} (h : a ∉ s) :
    (s.insert a).toList = s.toList ++ [a] := by
  rw [insert, dif_neg (fun ha => h (mem_toList.mp ha))]

theorem idxOf?_eq_none_iff {s : OrderedSet α} {a : α} : s.idxOf? a = none ↔ a ∉ s :=
  List.idxOf?_eq_none_iff

theorem idxOf?_eq_some_iff {s : OrderedSet α} {a : α} {i : Nat} :
    s.idxOf? a = some i ↔ s.get? i = some a := by
  rw [idxOf?, get?, List.idxOf?_eq_some_iff, List.getElem?_eq_some_iff]
  constructor
  · rintro ⟨hi, ha, -⟩
    exact ⟨hi, ha⟩
  · rintro ⟨hi, ha⟩
    refine ⟨hi, ha, fun j hji hj => ?_⟩
    -- Two places with the same member contradict `nodup`.
    exact List.pairwise_iff_getElem.mp s.nodup j i (by omega) hi hji (hj.trans ha.symm)

theorem get?_inj {s : OrderedSet α} {i j : Nat} {a : α} (hi : s.get? i = some a)
    (hj : s.get? j = some a) : i = j := by
  rw [← idxOf?_eq_some_iff] at hi hj
  exact Option.some.inj (hi.symm.trans hj)

theorem size_insert_of_not_mem {s : OrderedSet α} {a : α} (h : a ∉ s) :
    (s.insert a).size = s.size + 1 := by
  rw [size, toList_insert_of_not_mem h, List.length_append, List.length_singleton, size]

theorem get?_insert_of_not_mem {s : OrderedSet α} {a : α} (h : a ∉ s) (i : Nat) :
    (s.insert a).get? i = if i = s.size then some a else s.get? i := by
  rw [get?, toList_insert_of_not_mem h]
  split
  · next hi => rw [hi, size, List.getElem?_concat_length]
  · next hi =>
    by_cases hlt : i < s.size
    · rw [List.getElem?_append_left hlt, get?]
    · have hgt : s.toList.length < i := by
        rw [size] at hi hlt
        omega
      have hend : (s.toList ++ [a]).length ≤ i := by
        rw [List.length_append, List.length_singleton]
        omega
      rw [get?, List.getElem?_eq_none hend, List.getElem?_eq_none (by omega)]

end OrderedSet

/-- A list put into increasing order. Members that compare as equal keep their
    order. -/
def sortByOrder {α : Type} [Ord α] (l : List α) : List α :=
  l.mergeSort (fun a b => (compare a b).isLE)

/-- The members by their linear order. -/
def OrderedSet.sorted {α : Type} [Ord α] (s : OrderedSet α) : List α :=
  sortByOrder s.toList

end Interleaving
