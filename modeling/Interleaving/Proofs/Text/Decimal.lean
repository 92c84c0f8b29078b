import Interleaving.Text.Decimal
import Mathlib.Data.List.Basic

/-!
# Decimal Numbers, Both Ways

A natural number is written with digits, and with no zero in front unless it is zero. The
digits stand for the number they were made from, so different integers are written
differently.

## Theorems

* `Text.isDigit_of_mem_decimal`: Integers are written with digits and a sign.
* `Text.valueOfDigits_repr`: Digits stand for the number they were made from.
* `Text.head?_repr_ne_zero`: There is no superfluous zero.
* `Text.decimal_injective`: Different integers are written differently.
-/

namespace Interleaving

namespace Text

/-- Natural numbers are written with digits. -/
theorem isDigit_of_mem_repr {k : Nat} {c : Char} (h : c ∈ (Nat.repr k).toList) :
    c.isDigit = true := by
  rw [Nat.toList_repr] at h
  exact Nat.isDigit_of_mem_toDigits (by decide) (by decide) h

theorem toList_repr_ne_nil (k : Nat) : (Nat.repr k).toList ≠ [] := by
  rw [Nat.toList_repr]
  exact Nat.toDigits_ne_nil

/-- There is at least one digit. -/
theorem exists_toList_repr_eq_cons (k : Nat) :
    ∃ d ds, (Nat.repr k).toList = d :: ds ∧ d.isDigit = true := by
  rcases List.exists_cons_of_ne_nil (toList_repr_ne_nil k) with ⟨d, ds, hcons⟩
  exact ⟨d, ds, hcons, isDigit_of_mem_repr (hcons ▸ List.mem_cons_self)⟩

/-- Digits stand for the number they were made from. -/
theorem valueOfDigits_repr (k : Nat) : valueOfDigits (Nat.repr k).toList = k := by
  rw [Nat.toList_repr]
  exact Nat.ofDigitChars_ten_toDigits

/-- A number other than zero does not begin with a zero. -/
theorem head?_repr_ne_zero {k : Nat} (hk : k ≠ 0) : (Nat.repr k).toList.head? ≠ some '0' := by
  rw [Nat.toList_repr]
  induction k using Nat.strongRecOn with
  | _ k ih =>
      by_cases hlt : k < 10
      · rw [Nat.toDigits_of_lt_base hlt, List.head?_cons, Ne, Option.some.injEq,
          Nat.digitChar_eq_zero]
        exact hk
      · -- The last digit comes after those of a smaller number, which is not zero either.
        rw [Nat.toDigits_of_base_le (by decide) (by omega),
          List.head?_append_of_ne_nil _ Nat.toDigits_ne_nil]
        exact ih (k / 10) (by omega) (by omega)

theorem repr_injective {k k' : Nat} (h : Nat.repr k = Nat.repr k') : k = k' := by
  rw [← valueOfDigits_repr k, h, valueOfDigits_repr]

theorem toList_decimal_negSucc (k : Nat) :
    (decimal (.negSucc k)).toList = '-' :: (Nat.repr (k + 1)).toList := by
  simp [decimal, String.toList_append]

/-- All characters of an integer are digits, but for the sign. -/
theorem isDigit_of_mem_decimal {n : Int} {c : Char} (h : c ∈ (decimal n).toList) :
    c.isDigit = true ∨ c = '-' := by
  cases n with
  | ofNat k => exact Or.inl (isDigit_of_mem_repr h)
  | negSucc k =>
      rw [toList_decimal_negSucc, List.mem_cons] at h
      exact h.symm.imp_left isDigit_of_mem_repr

/-- Different integers are written differently. -/
theorem decimal_injective {m n : Int} (h : decimal m = decimal n) : m = n := by
  -- Of two integers of different signs only one is written with a sign.
  have hminus : ∀ k l : Nat, decimal (.ofNat k) ≠ decimal (.negSucc l) := by
    intro k l heq
    have hmem : '-' ∈ (decimal (.ofNat k)).toList := by
      rw [heq, toList_decimal_negSucc]
      exact List.mem_cons_self
    exact absurd (isDigit_of_mem_repr hmem) (by decide)
  cases m with
  | ofNat k =>
      cases n with
      | ofNat l => exact congrArg Int.ofNat (repr_injective h)
      | negSucc l => exact absurd h (hminus k l)
  | negSucc k =>
      cases n with
      | ofNat l => exact absurd h.symm (hminus l k)
      | negSucc l =>
          have hrepr := repr_injective ((String.append_right_inj "-").mp h)
          rw [Nat.add_right_cancel hrepr]

end Text

end Interleaving
