import Interleaving.Text.Blank

/-!
# Edges of a Program Graph

A step a process can take: from one location to another, under a condition, by
an action. Condition and action are texts; a registry gives them meaning.

A condition may be left blank and then stands for the guard that always holds.
An edge made by `Edge.make` has that guard written out. An edge that comes from
elsewhere may still have a blank condition, so `guard` is what evaluation asks
for.

## Main definitions

* `Edge`: A guarded step between two locations.
* `Edge.guard`: Its condition, or the guard that always holds.
-/

namespace Interleaving

/-- The guard that always holds. -/
def trueGuard : String :=
  "true"

/-- The action that changes nothing. -/
def skipAction : String :=
  "skip"

/-- The guard a condition stands for. -/
def guardOf (condition : String) : String :=
  if Text.isBlank condition then trueGuard else condition

/-- A guarded step between two locations. -/
structure Edge (L : Type) where
  source : L
  condition : String
  action : String
  target : L
  deriving DecidableEq, Repr

namespace Edge

variable {L : Type}

/-- An edge whose guard is written out. -/
def make (source : L) (condition action : String) (target : L) : Edge L :=
  ⟨source, guardOf condition, action, target⟩

/-- The guard of an edge. -/
def guard (e : Edge L) : String :=
  guardOf e.condition

end Edge

end Interleaving
