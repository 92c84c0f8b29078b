import Interleaving.Environment
import Mathlib.Data.List.Induction
import Mathlib.Data.List.Sort

/-!
# Equal Environments

An environment keeps its bindings in name order, so it is determined by the values of
its names: two environments that bind the same names to the same values are equal, in
whatever order their bindings were made. With this, whether two actions may change
places is a question about one name at a time.

## Main definitions

* `Environment.Agree`: Two environments have the same values for some names.

## Theorems

* `Environment.mem_bindings_iff`: A binding is there exactly if its name has its value.
* `Environment.ext_get?`: Environments with the same values are equal.
* `Environment.ofList_bindings`: An environment is made of its own bindings.
* `Environment.Agree.insert`: Agreement is kept when both get the same binding.
-/

namespace Interleaving

namespace Environment

variable {env env' : Environment} {name : String} {value : Value}

theorem mem_bindings_iff : (name, value) ∈ env.bindings ↔ env.get? name = some value := by
  rw [get?, List.lookup_eq_some_iff]
  constructor
  · intro h
    rcases List.append_of_mem h with ⟨before, after, hsplit⟩
    refine ⟨before, after, hsplit, ?_⟩
    intro b hb
    -- Names increase, so no binding before this one has its name.
    have hsorted := env.sorted
    rw [hsplit, List.pairwise_append] at hsorted
    have hlt : b.1 < name := hsorted.2.2 b hb (name, value) List.mem_cons_self
    refine bne_iff_ne.mpr ?_
    intro heq
    exact String.lt_irrefl name (heq ▸ hlt)
  · intro h
    rcases h with ⟨before, after, hsplit, -⟩
    rw [hsplit]
    exact List.mem_append_right _ List.mem_cons_self

/-- Environments with the same values are equal. -/
theorem ext_get? (h : ∀ name, env.get? name = env'.get? name) : env = env' := by
  have hirrefl : Std.Irrefl fun a b : String × Value => a.1 < b.1 :=
    ⟨fun a => String.lt_irrefl a.1⟩
  have hantisymm : Std.Antisymm fun a b : String × Value => a.1 < b.1 :=
    ⟨fun a b hab hba => absurd (String.lt_trans hab hba) (String.lt_irrefl a.1)⟩
  have hbindings : env.bindings = env'.bindings := by
    refine env.sorted.eq_of_mem_iff env'.sorted ?_
    intro binding
    rcases binding with ⟨name, value⟩
    rw [mem_bindings_iff, mem_bindings_iff, h name]
  rcases env with ⟨bindings, sorted⟩
  rcases env' with ⟨bindings', sorted'⟩
  cases hbindings
  rfl

/-- A name after all others is bound at the end. -/
theorem insertBinding_of_lt {name : String} {value : Value} {l : List (String × Value)}
    (h : ∀ b ∈ l, b.1 < name) : insertBinding name value l = l ++ [(name, value)] := by
  induction l with
  | nil => rfl
  | cons head rest ih =>
      have hhead := h head List.mem_cons_self
      rw [insertBinding, if_neg fun hlt => String.lt_irrefl _ (String.lt_trans hlt hhead),
        if_pos hhead, ih fun b hb => h b (List.mem_cons_of_mem head hb), List.cons_append]

theorem ofList_append_singleton (l : List (String × Value)) (binding : String × Value) :
    ofList (l ++ [binding]) = (ofList l).insert binding.1 binding.2 := by
  rw [ofList, List.foldl_append]
  rfl

/-- Bindings in name order are what an environment is made of. -/
theorem bindings_ofList {l : List (String × Value)} (h : l.Pairwise fun a b => a.1 < b.1) :
    (ofList l).bindings = l := by
  induction l using List.reverseRecOn with
  | nil => rfl
  | append_singleton l binding ih =>
      rw [List.pairwise_append] at h
      have hlt : ∀ b ∈ (ofList l).bindings, b.1 < binding.1 := by
        rw [ih h.1]
        intro b hb
        exact h.2.2 b hb binding List.mem_cons_self
      rw [ofList_append_singleton, insert]
      simp only
      rw [insertBinding_of_lt hlt, ih h.1]

theorem ofList_bindings (env : Environment) : ofList env.bindings = env := by
  have hbindings := bindings_ofList env.sorted
  rcases env with ⟨bindings, sorted⟩
  exact Environment.mk.injEq .. |>.mpr hbindings

/-- The names with `p` have the same values in both environments. -/
def Agree (p : String → Prop) (env env' : Environment) : Prop :=
  ∀ name, p name → env.get? name = env'.get? name

/-- The same binding for both keeps the agreement. -/
theorem Agree.insert {p : String → Prop} (h : Agree p env env') (name : String) (value : Value) :
    Agree p (env.insert name value) (env'.insert name value) := by
  intro k hk
  rw [get?_insert, get?_insert, h k hk]

end Environment

end Interleaving
