import Interleaving.Proofs.Environment
import Interleaving.Proofs.Script.Spelling
import Interleaving.Proofs.Text.Decimal
import Mathlib.Data.List.Nodup

/-!
# What Propositions Tell

The propositions of an environment are texts `name = value`, and a text does not say
where its parts end. In general two bindings can have the same text: a name may contain
spaces and equality signs, and a value may be the text `1`, which reads like the number.
If all names are names of the language and no value is a text, then this cannot happen. A
name has no space in it, so it ends before the first one; and the texts of booleans and
integers are all different, since integers are written with digits and a sign.

So the propositions of such an environment are as many as its bindings, and they tell all
of them.

## Main definitions

* `Value.Plain`: A value that is no text.
* `Environment.Plain`: Names of the language are bound to values that are no texts.

## Theorems

* `Value.Plain.eq_of_text_eq`: Different plain values are written differently.
* `Environment.Plain.propositionText_inj`: So are different bindings.
* `Environment.Plain.length_propositions`: There is one proposition for each binding.
* `Environment.Plain.eq_of_mem_propositions_iff`: Propositions tell the environment.
-/

namespace Interleaving

open Script (IsName isWordChar isWordChar_of_isWordStart)

/-- A boolean or an integer. -/
def Value.Plain (value : Value) : Prop :=
  (∃ b, value = .bool b) ∨ ∃ n, value = .int n

/-- A word is not written like an integer. -/
theorem Value.text_bool_ne_text_int (b : Bool) (n : Int64) :
    (Value.bool b).text ≠ (Value.int n).text := by
  intro h
  -- Both words end in a letter that no integer has.
  have hmem : 'e' ∈ (Text.decimal n.toInt).toList := by
    have htext : Text.decimal n.toInt = (Value.bool b).text := h.symm
    rw [htext]
    cases b <;> decide
  rcases Text.isDigit_of_mem_decimal hmem with hdigit | hsign
  · exact absurd hdigit (by decide)
  · exact absurd hsign (by decide)

/-- Plain values are told apart by their texts. -/
theorem Value.Plain.eq_of_text_eq {value value' : Value} (h : value.Plain) (h' : value'.Plain)
    (heq : value.text = value'.text) : value = value' := by
  have hbool : ∀ b b' : Bool, (Value.bool b).text = (Value.bool b').text → b = b' := by decide
  rcases h with ⟨b, rfl⟩ | ⟨n, rfl⟩
  · rcases h' with ⟨b', rfl⟩ | ⟨n', rfl⟩
    · rw [hbool b b' heq]
    · exact absurd heq (text_bool_ne_text_int b n')
  · rcases h' with ⟨b', rfl⟩ | ⟨n', rfl⟩
    · exact absurd heq.symm (text_bool_ne_text_int b' n)
    · rw [Int64.toInt_inj.mp (Text.decimal_injective heq)]

theorem Script.IsName.all_isWordChar {xs : List Char} (h : IsName xs) :
    ∀ c ∈ xs, isWordChar c = true := by
  rcases h with ⟨⟨c, rest, rfl, hc, hrest⟩, -⟩
  intro d hd
  rcases List.mem_cons.mp hd with rfl | hd
  · exact isWordChar_of_isWordStart hc
  · exact hrest d hd

namespace Environment

/-- Names of the language are bound to booleans and integers, and nothing else is bound. -/
def Plain (env : Environment) : Prop :=
  ∀ name value, env.get? name = some value → IsName name.toList ∧ value.Plain

theorem plain_empty : Plain empty := by
  intro name value h
  cases h

variable {env env' : Environment}

theorem Plain.insert (h : env.Plain) {name : String} {value : Value} (hname : IsName name.toList)
    (hvalue : value.Plain) : (env.insert name value).Plain := by
  intro k v hk
  rw [get?_insert] at hk
  by_cases heq : k = name
  · rw [if_pos heq] at hk
    cases hk
    rw [heq]
    exact ⟨hname, hvalue⟩
  · rw [if_neg heq] at hk
    exact h k v hk

theorem toList_propositionText (name : String) (value : Value) :
    (propositionText (name, value)).toList =
      name.toList ++ ' ' :: '=' :: ' ' :: value.text.toList := by
  simp [propositionText, String.toList_append]

/-- The text of a binding begins with its name, which ends before the first space. -/
theorem takeWhile_propositionText {name : String} (h : IsName name.toList) (value : Value) :
    (propositionText (name, value)).toList.takeWhile isWordChar = name.toList := by
  rw [toList_propositionText, List.takeWhile_append_of_pos h.all_isWordChar]
  exact List.append_nil _

/-- Bindings of plain values to names are told apart by their texts. -/
theorem Plain.propositionText_inj (h : env.Plain) (h' : env'.Plain) {b b' : String × Value}
    (hb : b ∈ env.bindings) (hb' : b' ∈ env'.bindings)
    (heq : propositionText b = propositionText b') : b = b' := by
  rcases b with ⟨name, value⟩
  rcases b' with ⟨name', value'⟩
  have hplain := h name value (mem_bindings_iff.mp hb)
  have hplain' := h' name' value' (mem_bindings_iff.mp hb')
  have hname : name = name' := by
    rw [← String.toList_inj, ← takeWhile_propositionText hplain.1 value, heq,
      takeWhile_propositionText hplain'.1]
  have htext : value.text = value'.text := by
    have hlists := congrArg String.toList heq
    rw [toList_propositionText, toList_propositionText, hname, List.append_cancel_left_eq] at hlists
    simp only [List.cons.injEq, true_and] at hlists
    exact String.toList_inj.mp hlists
  rw [hname, hplain.2.eq_of_text_eq hplain'.2 htext]

theorem mem_propositions_iff {p : String} :
    p ∈ env.propositions ↔ ∃ b ∈ env.bindings, propositionText b = p := by
  rw [propositions, Text.mem_sortedSet, List.mem_map]

theorem nodup_propositions (env : Environment) : env.propositions.Nodup := by
  refine (Text.sortedSet_pairwise _).imp ?_
  intro p q hlt heq
  exact String.lt_irrefl q (heq ▸ hlt)

theorem nodup_bindings (env : Environment) : env.bindings.Nodup := by
  refine env.sorted.imp ?_
  intro b b' hlt heq
  exact String.lt_irrefl b'.1 (heq ▸ hlt)

/-- There is one proposition for each binding. -/
theorem Plain.length_propositions (h : env.Plain) : env.propositions.length = env.size := by
  have hnodup : (env.bindings.map propositionText).Nodup :=
    env.nodup_bindings.map_on fun b hb b' hb' heq => h.propositionText_inj h hb hb' heq
  have hperm : env.propositions.Perm (env.bindings.map propositionText) := by
    refine (List.perm_ext_iff_of_nodup env.nodup_propositions hnodup).mpr ?_
    intro p
    rw [mem_propositions_iff, List.mem_map]
  rw [hperm.length_eq, List.length_map]
  rfl

/-- What one environment binds, the other binds as well. -/
theorem Plain.mem_bindings_of_mem_propositions (h : env.Plain) (h' : env'.Plain)
    (hsub : ∀ p, p ∈ env.propositions → p ∈ env'.propositions) {b : String × Value}
    (hb : b ∈ env.bindings) : b ∈ env'.bindings := by
  rcases mem_propositions_iff.mp (hsub _ (mem_propositions_iff.mpr ⟨b, hb, rfl⟩)) with
    ⟨b', hb', heq⟩
  rw [h.propositionText_inj h' hb hb' heq.symm]
  exact hb'

/-- Plain environments with the same propositions are equal. -/
theorem Plain.eq_of_mem_propositions_iff (h : env.Plain) (h' : env'.Plain)
    (hiff : ∀ p, p ∈ env.propositions ↔ p ∈ env'.propositions) : env = env' := by
  refine ext_get? ?_
  intro name
  refine Option.ext ?_
  intro value
  rw [← mem_bindings_iff, ← mem_bindings_iff]
  constructor
  · exact h.mem_bindings_of_mem_propositions h' fun p => (hiff p).mp
  · exact h'.mem_bindings_of_mem_propositions h fun p => (hiff p).mpr

end Environment

end Interleaving
