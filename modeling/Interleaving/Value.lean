import Interleaving.Text.Decimal

/-!
# Values

The values a variable can hold: booleans, integers of 64 bits and texts.
Arithmetic on them is exact, so an integer that does not fit is refused where it
would arise, by `checked`, rather than wrapped.

Values are ordered by kind first, booleans before integers before texts, and
within a kind in the usual way, texts by code point.

## Main definitions

* `Value`: A boolean, an integer or a text.
* `ValueType`: The kind of a value, as messages name it.
* `checked`: The 64-bit integer equal to an integer, if there is one.

## Theorems

* `checked_eq_some_iff`: `checked` loses nothing and invents nothing.
-/

namespace Interleaving

/-- What a variable can hold. -/
inductive Value where
  | bool (b : Bool)
  | int (n : Int64)
  | str (s : String)
  deriving DecidableEq, Ord, Repr, Inhabited

/-- The kinds of values. -/
inductive ValueType where
  | bool
  | int
  | string
  deriving DecidableEq, Repr

namespace ValueType

/-- The word for a kind of value in messages. -/
def name : ValueType → String
  | bool => "bool"
  | int => "int"
  | string => "string"

end ValueType

namespace Value

/-- The kind of a value. -/
def type : Value → ValueType
  | bool _ => .bool
  | int _ => .int
  | str _ => .string

/-- The integer a value holds, if it holds one. -/
def int? : Value → Option Int64
  | int n => some n
  | _ => none

/-- The boolean a value holds, if it holds one. -/
def bool? : Value → Option Bool
  | bool b => some b
  | _ => none

/-- A value as it reads in states and propositions. Texts stand unquoted. -/
def text : Value → String
  | bool true => "true"
  | bool false => "false"
  | int n => Text.decimal n.toInt
  | str s => s

end Value

/-- The 64-bit integer equal to `n`, if there is one. -/
def checked (n : Int) : Option Int64 :=
  if Int64.minValue.toInt ≤ n ∧ n ≤ Int64.maxValue.toInt then some (Int64.ofInt n) else none

theorem checked_eq_some_iff {n : Int} {k : Int64} : checked n = some k ↔ k.toInt = n := by
  unfold checked
  constructor
  · intro h
    split at h
    · next hn =>
      obtain rfl := Option.some.inj h
      rw [Int64.toInt_minValue, Int64.toInt_maxValue] at hn
      exact Int64.toInt_ofInt_of_le hn.1 (by omega)
    · exact absurd h (by simp)
  · rintro rfl
    have hlow := Int64.minValue_le_toInt k
    have hhigh := Int64.toInt_le k
    rw [if_pos ⟨hlow, hhigh⟩, Int64.ofInt_toInt]

end Interleaving
