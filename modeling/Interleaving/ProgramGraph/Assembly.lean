import Interleaving.ProgramGraph

/-!
# Assembling Program Graphs

Putting a graph together so that it cannot refer to locations it does not have.
What is included in a graph brings its locations with it, so a graph that was
assembled from nothing has no dangling references. Assembly may also go on from
a graph that was put together freely; so `assembled` checks every reference all
the same.

An edge can be assembled too, from parts that arrive in any order, some of
which may be missing in the end.

## Main definitions

* `AssemblyError`: What an edge or a graph can lack.
* `Edge.Parts.assemble`: The edge made from its parts.
* `ProgramGraph.includeEdge`, `ProgramGraph.includeInitial`: Additions that bring
  their locations.
* `ProgramGraph.assembled`: The graph, if it lacks nothing.
-/

namespace Interleaving

/-- What an edge or a graph can lack. -/
inductive AssemblyError (L : Type) where
  | missingInitial
  | missingSource
  | missingTarget
  | missingAction
  | invalid (violations : List (Violation L))
  deriving DecidableEq, Repr

/-- The wording of what is lacking. -/
def AssemblyError.message {L : Type} : AssemblyError L → String
  | missingInitial =>
    "No initial location specified. Call .initial(location) before .build()"
  | missingSource => "Transition source location not specified. Call .from(location)"
  | missingTarget => "Transition target location not specified. Call .to(location)"
  | missingAction => "Transition action not specified. Call .action(text) or .skip()"
  | invalid violations =>
    "Program graph has " ++ Nat.repr violations.length ++ " broken location reference(s)"

/-- The parts of an edge, as far as they are known. -/
structure Edge.Parts (L : Type) where
  source : Option L := none
  target : Option L := none
  /-- The condition, which may stay blank. -/
  condition : String := ""
  action : Option String := none

/-- The edge made from its parts. Of several missing ones, the source is
    reported first and the action last. -/
def Edge.Parts.assemble {L : Type} (parts : Edge.Parts L) : Except (AssemblyError L) (Edge L) :=
  match parts.source, parts.target, parts.action with
  | none, _, _ => .error .missingSource
  | some _, none, _ => .error .missingTarget
  | some _, some _, none => .error .missingAction
  | some source, some target, some action => .ok (.make source parts.condition action target)

namespace ProgramGraph

variable {L : Type} [DecidableEq L]

/-- Adds an edge and the locations at its ends. -/
def includeEdge (g : ProgramGraph L) (e : Edge L) : ProgramGraph L :=
  ((g.withLocation e.source).withLocation e.target).withEdge e

/-- Adds a location and makes it initial. -/
def includeInitial (g : ProgramGraph L) (location : L) : ProgramGraph L :=
  (g.withLocation location).markInitial location

/-- The graph itself, if it has an initial location and no violations. -/
def assembled (g : ProgramGraph L) : Except (AssemblyError L) (ProgramGraph L) :=
  if g.initial.isEmpty then .error .missingInitial
  else
    match g.violations with
    | [] => .ok g
    | violations => .error (.invalid violations)

end ProgramGraph

end Interleaving
