import Interleaving.ProgramGraph

/-!
# Channel Systems

Several processes side by side over one shared environment, each a program
graph, numbered from zero. How they move together is the matter of
`Dynamics.ChannelSystem`.

## Main definitions

* `ChannelSystem`: Processes in order.
* `ChannelSystem.initialTuples`: One initial location for each process, in every
  way.
-/

namespace Interleaving

/-- Processes that run side by side. -/
structure ChannelSystem (L : Type) where
  processes : List (ProgramGraph L)
  deriving DecidableEq

namespace ChannelSystem

variable {L : Type}

/-- The number of processes. -/
def size (c : ChannelSystem L) : Nat :=
  c.processes.length

/-- Whether there are no processes. -/
def isEmpty (c : ChannelSystem L) : Bool :=
  c.processes.isEmpty

/-- The names of the processes. -/
def names (c : ChannelSystem L) : List String :=
  c.processes.map (·.name)

/-- All ways to choose one member of each list, the last choice changing
    fastest. -/
def choices : List (List L) → List (List L)
  | [] => [[]]
  | options :: rest => options.flatMap fun l => (choices rest).map (l :: ·)

/-- All tuples of initial locations. -/
def initialTuples (c : ChannelSystem L) : List (List L) :=
  choices (c.processes.map (·.initial.toList))

/-- All initialization actions, process by process. -/
def initializationActions (c : ChannelSystem L) : List String :=
  c.processes.flatMap fun g => g.initializations.flatten

end ChannelSystem

end Interleaving
