import Interleaving.Text.Quoted

/-!
# Locations

The places of a program. Graphs are over any type of locations; this is the one
for models whose locations are numbered or named, and both may occur in one
graph. The number one and the name `1` are different locations.

## Main definitions

* `Location`: A number or a name. Numbers come before names.
-/

namespace Interleaving

/-- A numbered or named place. -/
inductive Location where
  | number (n : Int64)
  | name (s : String)
  deriving DecidableEq, Ord, Repr

instance : Quotable Location where
  quote
    | .number n => Quotable.quote n
    | .name s => Quotable.quote s

end Interleaving
