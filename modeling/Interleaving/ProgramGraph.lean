import Interleaving.OrderedSet
import Interleaving.ProgramGraph.Edge
import Interleaving.Text.Quoted

/-!
# Program Graphs

One sequential process: locations, edges between them, the locations where it
may start, and sequences of actions that set up its variables. Each
initialization sequence makes one initial environment, from nothing.

A graph can be put together freely and may then refer to locations it does not
have. `violations` lists all such references; a graph without violations is
closed under its own steps.

## Main definitions

* `ProgramGraph`: One process.
* `ProgramGraph.edgesFrom`: The edges that leave a location, with their indices.
* `ProgramGraph.outgoing`: All edge indices, grouped by source.
* `ProgramGraph.leaving`: The edge indices of one group.
* `ProgramGraph.violations`: References to locations the graph does not have.
-/

namespace Interleaving

/-- One sequential process. -/
structure ProgramGraph (L : Type) where
  name : String
  locations : OrderedSet L
  initial : OrderedSet L
  edges : List (Edge L)
  initializations : List (List String)
  deriving DecidableEq

/-- A reference to a location that a graph does not have. -/
inductive Violation (L : Type) where
  | initial (location : L)
  | source (index : Nat) (location : L)
  | target (index : Nat) (location : L)
  deriving DecidableEq, Repr

namespace Violation

variable {L : Type}

/-- The wording of a violation. -/
def message [Quotable L] : Violation L → String
  | initial location =>
    "Initial location " ++ Quotable.quote location ++ " is not a location of the graph"
  | source index location =>
    "Transition " ++ Nat.repr index ++ " starts at unknown location " ++ Quotable.quote location
  | target index location =>
    "Transition " ++ Nat.repr index ++ " ends at unknown location " ++ Quotable.quote location

/-- Whether a violation is about an initial location. -/
def isInitial : Violation L → Bool
  | initial _ => true
  | _ => false

/-- The wordings of violations. Initial locations are a set, so what is said
    about them comes first and is sorted; the rest keeps the order of the
    edges. -/
def messages [Quotable L] (violations : List (Violation L)) : List String :=
  sortByOrder ((violations.filter (·.isInitial)).map message) ++
    (violations.filter (!·.isInitial)).map message

end Violation

namespace ProgramGraph

variable {L : Type}

/-- The graph with nothing in it. -/
def empty : ProgramGraph L :=
  ⟨"", .empty, .empty, [], []⟩

/-- Adds an edge, whether or not its ends are locations of the graph. -/
def withEdge (g : ProgramGraph L) (e : Edge L) : ProgramGraph L :=
  { g with edges := g.edges ++ [e] }

/-- Adds a sequence of initialization actions. -/
def withInitialization (g : ProgramGraph L) (actions : List String) : ProgramGraph L :=
  { g with initializations := g.initializations ++ [actions] }

variable [DecidableEq L]

/-- Adds a location, and tells whether it is new. -/
def addLocation (g : ProgramGraph L) (location : L) : ProgramGraph L × Bool :=
  ({ g with locations := g.locations.insert location }, location ∉ g.locations)

/-- The graph with one more location. -/
def withLocation (g : ProgramGraph L) (location : L) : ProgramGraph L :=
  (g.addLocation location).1

/-- Makes a location initial, whether or not it is a location of the graph. -/
def markInitial (g : ProgramGraph L) (location : L) : ProgramGraph L :=
  { g with initial := g.initial.insert location }

/-- Makes a location no longer initial. -/
def unmarkInitial (g : ProgramGraph L) (location : L) : ProgramGraph L :=
  { g with initial := g.initial.erase location }

/-- The edges that leave a location, with their indices, in order. -/
def edgesFrom (g : ProgramGraph L) (location : L) : List (Edge L × Nat) :=
  g.edges.zipIdx.filter (·.1.source = location)

/-- Adds an index under a location, which becomes a key if it is none yet. -/
def addOutgoing (location : L) (index : Nat) : List (L × List Nat) → List (L × List Nat)
  | [] => [(location, [index])]
  | (key, indices) :: rest =>
    if key = location then (key, indices ++ [index]) :: rest
    else (key, indices) :: addOutgoing location index rest

/-- The indices of the edges, grouped by the location they leave. -/
def outgoing (g : ProgramGraph L) : List (L × List Nat) :=
  g.edges.zipIdx.foldl (fun groups (e, index) => addOutgoing e.source index groups) []

/-- The indices that the groups have under a location. -/
def leaving (g : ProgramGraph L) (location : L) : List Nat :=
  (g.outgoing.lookup location).getD []

/-- Whether two graphs are the same, their locations and initial locations taken
    as sets. -/
def same (g h : ProgramGraph L) : Bool :=
  g.name = h.name && g.locations.sameMembers h.locations && g.initial.sameMembers h.initial &&
    g.edges = h.edges && g.initializations = h.initializations

/-- A reference to a location, as a violation if the graph does not have it. -/
def check (g : ProgramGraph L) (location : L) (violation : Violation L) : List (Violation L) :=
  if location ∈ g.locations then [] else [violation]

/-- All references to locations that the graph does not have: initial locations
    first, then for each edge its source and its target. -/
def violations (g : ProgramGraph L) : List (Violation L) :=
  g.initial.toList.flatMap (fun l => g.check l (.initial l)) ++
    g.edges.zipIdx.flatMap fun (e, index) =>
      g.check e.source (.source index e.source) ++ g.check e.target (.target index e.target)

end ProgramGraph

end Interleaving
