/-!
# Decimal Numbers

Integers in decimal digits, both ways: how a number is written, and the number
that digits stand for. Written numbers have no superfluous zeros; digits that
are read may begin with any number of them.

## Main definitions

* `Text.decimal`: An integer in digits.
* `Text.valueOfDigits`: The number that digits stand for.
-/

namespace Interleaving

namespace Text

/-- An integer in decimal digits, after a minus sign when it is negative. -/
def decimal (n : Int) : String :=
  match n with
  | .ofNat k => Nat.repr k
  | .negSucc k => "-" ++ Nat.repr (k + 1)

/-- The number that decimal digits stand for. -/
def valueOfDigits (digits : List Char) : Nat :=
  digits.foldl (fun value digit => 10 * value + (digit.toNat - '0'.toNat)) 0

end Text

end Interleaving
