import Interleaving.OrderedSet

/-!
# Arenas

Members that are stored once and known by their numbers, with an index that
finds the number of a member. The two are kept apart: a number is looked up in
the list of members, and a member in the index. Nothing but `insert` writes to
an arena, and it writes to both.

List and index are in step if the index says of every member where it stands,
and nothing else. `InStep.insert` is what keeps them there.

## Main definitions

* `Arena`: Members by number, and numbers by member.
* `Arena.insert`: Adds a member, unless the index knows it.
* `Arena.InStep`: List and index say the same.

## Theorems

* `Arena.find?_eq_some_iff`: In step, members and numbers determine each other.
* `Arena.InStep.insert`: One more member keeps list and index in step.
-/

namespace Interleaving

/-- Members by number, and numbers by member. -/
structure Arena (α : Type) where
  /-- The members, each at its number. -/
  members : List α
  /-- The number of each member. -/
  index : List (α × Nat)
  deriving DecidableEq

namespace Arena

variable {α : Type}

/-- The arena without members. -/
def empty : Arena α :=
  ⟨[], []⟩

/-- List and index say the same, and no member stands twice. -/
structure InStep (a : Arena α) : Prop where
  nodup : a.members.Nodup
  index_eq : a.index = a.members.zipIdx

theorem inStep_empty : (empty : Arena α).InStep :=
  ⟨List.Pairwise.nil, rfl⟩

/-- The arena with the members of a set, each at its place. -/
def ofSet (s : OrderedSet α) : Arena α :=
  ⟨s.toList, s.toList.zipIdx⟩

theorem inStep_ofSet (s : OrderedSet α) : (ofSet s).InStep :=
  ⟨s.nodup, rfl⟩

/-- In step, the list determines the index. -/
theorem eq_of_members_eq {a b : Arena α} (ha : a.InStep) (hb : b.InStep)
    (h : a.members = b.members) : a = b := by
  rcases a with ⟨members, index⟩
  rcases b with ⟨members', index'⟩
  cases h
  have hindex : index = index' := ha.index_eq.trans hb.index_eq.symm
  rw [hindex]

variable [DecidableEq α]

/-- The number of a member, as the index has it. -/
def find? (a : Arena α) (x : α) : Option Nat :=
  a.index.lookup x

/-- Adds a member, unless the index knows it, and gives its number and whether
    it is new. -/
def insert (a : Arena α) (x : α) : Arena α × Nat × Bool :=
  match a.find? x with
  | some id => (a, id, false)
  | none =>
    let id := a.members.length
    ({ index := a.index ++ [(x, id)], members := a.members ++ [x] }, id, true)

/-- Where no key stands twice, a lookup finds the pairs of the list. -/
theorem lookup_eq_some_iff_mem {l : List (α × Nat)} (h : (l.map Prod.fst).Nodup) {x : α}
    {id : Nat} : l.lookup x = some id ↔ (x, id) ∈ l := by
  induction l with
  | nil => simp
  | cons pair l ih =>
    rcases pair with ⟨y, n⟩
    rw [List.map_cons, List.nodup_cons] at h
    rw [List.lookup_cons, List.mem_cons, Prod.mk.injEq]
    by_cases hxy : x = y
    · subst hxy
      have hnot : (x, id) ∉ l := fun hmem => h.1 (List.mem_map.mpr ⟨(x, id), hmem, rfl⟩)
      simp only [beq_self_eq_true, Option.some.injEq, true_and, hnot, or_false]
      exact eq_comm
    · have hbeq : (x == y) = false := beq_false_of_ne hxy
      simp only [hbeq, hxy, false_and, false_or, ih h.2]

theorem find?_eq_some_iff {a : Arena α} (h : a.InStep) {x : α} {id : Nat} :
    a.find? x = some id ↔ a.members[id]? = some x := by
  have hkeys : (a.members.zipIdx.map Prod.fst).Nodup := by
    rw [List.zipIdx_map_fst]
    exact h.nodup
  rw [find?, h.index_eq, lookup_eq_some_iff_mem hkeys, List.mk_mem_zipIdx_iff_getElem?]

theorem find?_eq_none_iff {a : Arena α} (h : a.InStep) {x : α} :
    a.find? x = none ↔ x ∉ a.members := by
  rw [List.mem_iff_getElem?, Option.eq_none_iff_forall_ne_some]
  simp only [ne_eq, find?_eq_some_iff h, not_exists]

theorem insert_of_getElem? {a : Arena α} (h : a.InStep) {x : α} {id : Nat}
    (hx : a.members[id]? = some x) : a.insert x = (a, id, false) := by
  rw [insert, (find?_eq_some_iff h).mpr hx]

theorem insert_of_not_mem {a : Arena α} (h : a.InStep) {x : α} (hx : x ∉ a.members) :
    a.insert x =
      (⟨a.members ++ [x], a.index ++ [(x, a.members.length)]⟩, a.members.length, true) := by
  rw [insert, (find?_eq_none_iff h).mpr hx]

/-- One more member goes to the end of the list, and into the index under the
    number it has there. -/
theorem InStep.insert {a : Arena α} (h : a.InStep) (x : α) : (a.insert x).1.InStep := by
  by_cases hx : x ∈ a.members
  · rcases List.mem_iff_getElem?.mp hx with ⟨id, hid⟩
    rw [insert_of_getElem? h hid]
    exact h
  · rw [insert_of_not_mem h hx]
    refine ⟨OrderedSet.nodup_append_singleton h.nodup hx, ?_⟩
    rw [List.zipIdx_append, h.index_eq]
    simp

end Arena

end Interleaving
