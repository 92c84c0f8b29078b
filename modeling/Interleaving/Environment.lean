import Interleaving.Text.Sorted
import Interleaving.Value

/-!
# Environments

What the variables of a program hold. An environment keeps its bindings in
name order, each name once, and carries the proof that it does. The order is
not a convenience: an environment is part of a state, states are told apart by
equality, and the order is what makes two environments with the same bindings
equal however they were built.

The propositions of an environment are the texts `name = value` of its
bindings. They are a set of texts, so two bindings with the same text would
count once.

## Main definitions

* `Environment`: Bindings in name order.
* `Environment.insert`: Binds a name, replacing an earlier binding of it.
* `Environment.get?`: The value bound to a name.
* `Environment.propositions`: What an environment makes true.

## Theorems

* `Environment.get?_insert`: Binding a name changes the value of that name and
  of no other.
-/

namespace Interleaving

/-- The bindings of the variables, by name. -/
structure Environment where
  /-- Names with their values. -/
  bindings : List (String × Value)
  /-- Names increase, so each is bound once. -/
  sorted : bindings.Pairwise (fun a b => a.1 < b.1)
  deriving DecidableEq

namespace Environment

/-- The environment that binds nothing. -/
def empty : Environment :=
  ⟨[], List.Pairwise.nil⟩

instance : Inhabited Environment :=
  ⟨empty⟩

/-- Bindings are compared by name first, then by value. -/
def compareBindings (a b : String × Value) : Ordering :=
  (compare a.1 b.1).then (compare a.2 b.2)

instance : Ord Environment where
  compare a b := a.bindings.compareLex compareBindings b.bindings

/-- Binds a name in a list of bindings, in its place. -/
def insertBinding (name : String) (value : Value) :
    List (String × Value) → List (String × Value)
  | [] => [(name, value)]
  | head :: rest =>
    if name < head.1 then (name, value) :: head :: rest
    else if head.1 < name then head :: insertBinding name value rest
    else (name, value) :: rest

/-- A name bound afterwards is the new name or was bound before. -/
theorem name_of_mem_insertBinding {name : String} {value : Value}
    {l : List (String × Value)} {b : String × Value} (h : b ∈ insertBinding name value l) :
    b.1 = name ∨ ∃ c ∈ l, c.1 = b.1 := by
  induction l with
  | nil =>
    rw [insertBinding, List.mem_singleton] at h
    exact Or.inl (h ▸ rfl)
  | cons head rest ih =>
    rw [insertBinding] at h
    split at h
    · rcases List.mem_cons.mp h with rfl | h
      · exact Or.inl rfl
      · exact Or.inr ⟨b, h, rfl⟩
    · split at h
      · rcases List.mem_cons.mp h with rfl | h
        · exact Or.inr ⟨b, List.mem_cons_self, rfl⟩
        · rcases ih h with h | ⟨c, hc, hname⟩
          · exact Or.inl h
          · exact Or.inr ⟨c, List.mem_cons_of_mem _ hc, hname⟩
      · rcases List.mem_cons.mp h with rfl | h
        · exact Or.inl rfl
        · exact Or.inr ⟨b, List.mem_cons_of_mem _ h, rfl⟩

theorem insertBinding_sorted {name : String} {value : Value} {l : List (String × Value)}
    (h : l.Pairwise (fun a b => a.1 < b.1)) :
    (insertBinding name value l).Pairwise (fun a b => a.1 < b.1) := by
  induction l with
  | nil => simp [insertBinding]
  | cons head rest ih =>
    have hhead := List.pairwise_cons.mp h
    rw [insertBinding]
    split
    · next hlt =>
      refine List.pairwise_cons.mpr ⟨fun b hb => ?_, h⟩
      rcases List.mem_cons.mp hb with rfl | hb
      · exact hlt
      · exact String.lt_trans hlt (hhead.1 b hb)
    · split
      · next hgt =>
        refine List.pairwise_cons.mpr ⟨fun b hb => ?_, ih hhead.2⟩
        rcases name_of_mem_insertBinding hb with hname | ⟨c, hc, hname⟩
        · exact hname ▸ hgt
        · exact hname ▸ hhead.1 c hc
      · next hlt hgt =>
        -- The new binding takes the place of the old one of the same name.
        have hname : name = head.1 := Text.eq_of_not_lt hlt hgt
        refine List.pairwise_cons.mpr ⟨fun b hb => ?_, hhead.2⟩
        exact hname ▸ hhead.1 b hb

/-- Binds `name` to `value`. An earlier binding of the name is replaced. -/
def insert (env : Environment) (name : String) (value : Value) : Environment :=
  ⟨insertBinding name value env.bindings, insertBinding_sorted env.sorted⟩

/-- The environment of a list of bindings, in which later ones win. -/
def ofList (bindings : List (String × Value)) : Environment :=
  bindings.foldl (fun env binding => env.insert binding.1 binding.2) empty

/-- The value bound to `name`, if it is bound. -/
def get? (env : Environment) (name : String) : Option Value :=
  env.bindings.lookup name

@[simp] theorem get?_empty (name : String) : empty.get? name = none :=
  rfl

theorem lookup_insertBinding (name k : String) (value : Value) (l : List (String × Value)) :
    (insertBinding name value l).lookup k = if k = name then some value else l.lookup k := by
  induction l with
  | nil =>
    by_cases hk : k = name
    · simp [insertBinding, hk]
    · simp [insertBinding, List.lookup_cons, beq_false_of_ne hk, hk]
  | cons head rest ih =>
    obtain ⟨n, v⟩ := head
    rw [insertBinding]
    split
    · by_cases hk : k = name
      · simp [hk]
      · simp [List.lookup_cons, beq_false_of_ne hk, hk]
    · split
      · next hgt =>
        by_cases hkn : k = n
        · have hk : k ≠ name := fun h => String.lt_irrefl k (by rw [hkn] at h ⊢; exact h ▸ hgt)
          simp [hkn, hkn ▸ hk]
        · simp [List.lookup_cons, beq_false_of_ne hkn, ih]
      · next hlt hgt =>
        -- The old binding of the name goes, and no other name is touched.
        have hname : name = n := Text.eq_of_not_lt hlt hgt
        by_cases hk : k = name
        · simp [hk]
        · simp [List.lookup_cons, beq_false_of_ne hk, hk, beq_false_of_ne (hname ▸ hk : k ≠ n)]

@[simp] theorem get?_insert (env : Environment) (name k : String) (value : Value) :
    (env.insert name value).get? k = if k = name then some value else env.get? k :=
  lookup_insertBinding name k value env.bindings

/-- Whether `name` is bound. -/
def contains (env : Environment) (name : String) : Bool :=
  (env.get? name).isSome

/-- The number of names that are bound. -/
def size (env : Environment) : Nat :=
  env.bindings.length

/-- Whether nothing is bound. -/
def isEmpty (env : Environment) : Bool :=
  env.bindings.isEmpty

/-- The bindings, in name order. -/
def toList (env : Environment) : List (String × Value) :=
  env.bindings

/-- The proposition that a variable has a value. -/
def propositionText (binding : String × Value) : String :=
  binding.1 ++ " = " ++ binding.2.text

/-- The propositions that hold: one for each binding, by code point. -/
def propositions (env : Environment) : List String :=
  Text.sortedSet (env.bindings.map propositionText)

/-- An environment as it reads in the text of a state. -/
def text (env : Environment) : String :=
  let shown := env.bindings.map fun binding => binding.1 ++ "=" ++ binding.2.text
  "\x7b" ++ String.intercalate ", " shown ++ "\x7d"

end Environment

end Interleaving
