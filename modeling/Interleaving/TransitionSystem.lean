import Interleaving.Arena
import Interleaving.Text.Quoted

/-!
# Transition Systems

States, initial states, actions, transitions, atomic propositions, and the
propositions that label each state, all explicit. Every state is stored once
and is known by its number, which is its place in the order of first insertion;
transitions, initial marks and labels refer to states by number. The number of
a state is found in an index, which is written together with the states.

A transition system is strict about references. A mark, a transition or a label
may only mention states, actions and propositions that are there already; a
reference to something absent is refused with the first absent thing in the
order of the arguments. Nothing is ever removed or renumbered.

What changes a system is a `Change`: it goes from system to system, and may be
refused on the way. A refusal does not bring the old system back. Whatever was
written before it stays, so that a refused change leaves a system as it was
only because all its checks come before its first write.

Where a state is known only by itself, `Change.requireState` finds its number,
or refuses it; `Change.connectStates` and `Change.labelState` are the changes
by number after that.

## Main definitions

* `TransitionSystem`: States by number, and what refers to them.
* `TransitionSystem.insertState`: Adds a state, unless it is there already.
* `ReferenceError`: A reference to something absent.
* `Change`: A change of a system that may be refused.
* `Change.connect`: Adds a transition between two numbers.
* `TransitionSystem.after`: The system after a change that is not refused.
-/

namespace Interleaving

/-- A step of a transition system. -/
structure Transition (S A : Type) where
  source : S
  action : A
  target : S
  deriving DecidableEq, Ord, Repr

/-- States with their numbers, and everything that refers to them. -/
structure TransitionSystem (S A P : Type) where
  /-- The states, each at its number, with an index to find them. -/
  arena : Arena S
  /-- The numbers of the initial states. -/
  initial : OrderedSet Nat
  actions : OrderedSet A
  /-- The transitions, between numbers. -/
  transitions : OrderedSet (Transition Nat A)
  propositions : OrderedSet P
  /-- The labels of each state, at its number. -/
  labels : List (OrderedSet P)
  /-- The index has every state under its number. -/
  in_step : arena.InStep
  deriving DecidableEq

/-- A reference to something a transition system does not have. -/
inductive ReferenceError (S A P : Type) where
  | unknownState (state : S)
  | unknownId (id : Nat)
  | unknownAction (action : A)
  | unknownProposition (proposition : P)
  deriving DecidableEq, Repr

/-- The wording of a reference to something absent. -/
def ReferenceError.message {S A P : Type} [Quotable S] [Quotable A] [Quotable P] :
    ReferenceError S A P → String
  | unknownState state =>
    "State " ++ Quotable.quote state ++ " is not part of the transition system"
  | unknownId id =>
    "State StateId(" ++ Nat.repr id ++ ") is not part of the transition system"
  | unknownAction action =>
    "Action " ++ Quotable.quote action ++ " is not part of the transition system"
  | unknownProposition proposition =>
    "Atomic proposition " ++ Quotable.quote proposition ++ " is not part of the transition system"

namespace TransitionSystem

variable {S A P : Type}

/-- The system with nothing in it. -/
def empty : TransitionSystem S A P :=
  ⟨.empty, .empty, .empty, .empty, .empty, [], Arena.inStep_empty⟩

/-- The states, in order. -/
def states (t : TransitionSystem S A P) : OrderedSet S :=
  ⟨t.arena.members, t.in_step.nodup⟩

/-- The state with a number. -/
def state? (t : TransitionSystem S A P) (id : Nat) : Option S :=
  t.states.get? id

/-- The state with a number that has to be there. -/
def stateAt (t : TransitionSystem S A P) (id : Nat) : Except (ReferenceError S A P) S :=
  match t.state? id with
  | some state => .ok state
  | none => .error (.unknownId id)

/-- The numbers of the initial states, in increasing order. -/
def initialIds (t : TransitionSystem S A P) : List Nat :=
  t.initial.sorted

/-- The initial states, by number. -/
def initialStates (t : TransitionSystem S A P) : List S :=
  t.initialIds.filterMap t.state?

/-- A transition with the states its numbers stand for. -/
def resolve? (t : TransitionSystem S A P) (step : Transition Nat A) : Option (Transition S A) := do
  return ⟨← t.state? step.source, step.action, ← t.state? step.target⟩

/-- The transitions between states. -/
def resolvedTransitions (t : TransitionSystem S A P) : List (Transition S A) :=
  t.transitions.toList.filterMap t.resolve?

/-- The labels of the state with a number. -/
def labelsAt? (t : TransitionSystem S A P) (id : Nat) : Option (OrderedSet P) :=
  t.labels[id]?

section States

variable [DecidableEq S]

/-- The number of a state, as the index has it. -/
def idOf? (t : TransitionSystem S A P) (state : S) : Option Nat :=
  t.arena.find? state

/-- Adds a state, unless it is there already, and gives its number and whether
    it is new. A new state has no labels yet. -/
def insertState (t : TransitionSystem S A P) (state : S) :
    TransitionSystem S A P × Nat × Bool :=
  let inserted := t.arena.insert state
  ({ t with
      arena := inserted.1
      labels := if inserted.2.2 then t.labels ++ [.empty] else t.labels
      in_step := t.in_step.insert state },
    inserted.2)

/-- Whether a state is there and initial. -/
def isInitial (t : TransitionSystem S A P) (state : S) : Bool :=
  match t.idOf? state with
  | some id => id ∈ t.initial
  | none => false

/-- The labels of a state. -/
def labelsOf? (t : TransitionSystem S A P) (state : S) : Option (OrderedSet P) := do
  t.labelsAt? (← t.idOf? state)

end States

end TransitionSystem

/-- A change of a transition system, with an answer or a refusal. What was
    written before a refusal stays. -/
abbrev Change (S A P α : Type) : Type :=
  EStateM (ReferenceError S A P) (TransitionSystem S A P) α

namespace Change

variable {S A P : Type}

/-- Refuses a reference, unless the system has what it is to. -/
def require (has : TransitionSystem S A P → Bool) (ref : ReferenceError S A P) :
    Change S A P Unit := do
  if has (← get) then return () else throw ref

/-- Refuses a number that no state has. -/
def requireId (id : Nat) : Change S A P Unit :=
  require (fun t => id < t.states.size) (.unknownId id)

/-- Refuses an action that was not declared. -/
def requireAction [DecidableEq A] (action : A) : Change S A P Unit :=
  require (fun t => action ∈ t.actions) (.unknownAction action)

/-- Refuses a proposition that was not declared. -/
def requireProposition [DecidableEq P] (proposition : P) : Change S A P Unit :=
  require (fun t => proposition ∈ t.propositions) (.unknownProposition proposition)

/-- Marks the state with a number as initial. -/
def markInitial (id : Nat) : Change S A P Unit := do
  requireId id
  modify fun t => { t with initial := t.initial.insert id }

/-- Adds an action, and tells whether it is new. -/
def declareAction [DecidableEq A] (action : A) : Change S A P Bool := do
  let t ← get
  set { t with actions := t.actions.insert action }
  return action ∉ t.actions

/-- Adds a transition between two numbers, and tells whether it is new. The
    source is looked at first, then the target, then the action. -/
def connect [DecidableEq A] (step : Transition Nat A) : Change S A P Bool := do
  requireId step.source
  requireId step.target
  requireAction step.action
  let t ← get
  set { t with transitions := t.transitions.insert step }
  return step ∉ t.transitions

/-- Adds an atomic proposition, and tells whether it is new. -/
def declareProposition [DecidableEq P] (proposition : P) : Change S A P Bool := do
  let t ← get
  set { t with propositions := t.propositions.insert proposition }
  return proposition ∉ t.propositions

/-- Labels the state with a number. -/
def label [DecidableEq P] (id : Nat) (proposition : P) : Change S A P Unit := do
  requireId id
  requireProposition proposition
  modify fun t => { t with labels := t.labels.modify id (·.insert proposition) }

/-- Adds a transition between two numbers, and its action before. -/
def enterStep [DecidableEq A] (step : Transition Nat A) : Change S A P Bool := do
  let _ ← declareAction step.action
  connect step

/-- Labels the state with a number, and adds the proposition before. -/
def enterLabel [DecidableEq P] (id : Nat) (proposition : P) : Change S A P Unit := do
  let _ ← declareProposition proposition
  label id proposition

section States

variable [DecidableEq S]

/-- Adds a state, and gives its number and whether it is new. -/
def insertState (state : S) : Change S A P (Nat × Bool) := do
  let (t, id, isNew) := (← get).insertState state
  set t
  return (id, isNew)

/-- Refuses a state that has no number, and gives the number of any other. -/
def requireState (state : S) : Change S A P Nat := do
  match (← get).idOf? state with
  | some id => return id
  | none => throw (.unknownState state)

/-- Marks a state as initial, and gives its number. -/
def markInitialState (state : S) : Change S A P Nat := do
  let id ← requireState state
  modify fun t => { t with initial := t.initial.insert id }
  return id

/-- Adds a transition between two states, and tells whether it is new. -/
def connectStates [DecidableEq A] (step : Transition S A) : Change S A P Bool := do
  let source ← requireState step.source
  let target ← requireState step.target
  connect ⟨source, step.action, target⟩

/-- Labels a state. -/
def labelState [DecidableEq P] (state : S) (proposition : P) : Change S A P Unit := do
  let id ← requireState state
  label id proposition

end States

end Change

/-- The system after a change, or the refusal if there is one. -/
def TransitionSystem.after {S A P α : Type} (t : TransitionSystem S A P) (change : Change S A P α) :
    Except (ReferenceError S A P) (TransitionSystem S A P) :=
  match change.run t with
  | .ok _ changed => .ok changed
  | .error refusal _ => .error refusal

end Interleaving
