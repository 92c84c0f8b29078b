import Interleaving.Proofs.TransitionSystem

/-!
# Calls

A transition system can be put together by anyone, with any sequence of calls. A call is a
change with an answer, and after it the system is whatever the change has left, refused or
not. What there is to say about one call is said here, and everything about sequences of
calls follows from it.

A transition system can be read as a list of facts: this state has this number, this number
is initial, this is an action, and so on. Every call asserts one fact. Either everything that
the fact refers to is there, and then the call enters it; or something is missing, and then
the call is refused with the first thing that is missing and leaves the system as it found
it. The second half is not given: a change could be refused after it has written something.
It holds because a change looks up all it refers to before it writes, and a check writes
nothing.

A call by states is a call by numbers after the states were looked up. The numbers found
there are in range, so the second round of checks has nothing left to refuse but what comes
after the states. This is why the two forms of a call agree on what they report first.

## Main definitions

* `Call`, `Call.change`: A call, and what it does.
* `Call.apply`: The system after a call, refused or not.
* `Call.references`, `TransitionSystem.lacks`: What a call refers to, and what is absent.
* `TransitionSystem.Refuses`: A change is refused with the first absent reference, and then
  nothing has changed.
* `Fact`, `Call.Asserts`: What a system says, and what a call adds to it.
* `TransitionSystem.Admits`, `TransitionSystem.enter`: Facts that may be added, and the system
  with one more.

## Theorems

* `TransitionSystem.Refuses.require_bind`, `TransitionSystem.Refuses.requireState_bind`: A check
  before the rest of a change.
* `Call.refuses_change`: What calls are refused with.
* `Call.exists_asserts_of_run`: What accepted calls do.
* `Call.apply_cases`: Every call enters a fact or does nothing.
-/

namespace Interleaving

/-- A call that changes a transition system. -/
inductive Call (S A P : Type) where
  /-- Hands in a state. Whether its number is asked for makes no difference. -/
  | insertState (state : S)
  | markInitialState (state : S)
  | markInitial (id : Nat)
  | declareAction (action : A)
  | connectStates (step : Transition S A)
  | connect (step : Transition Nat A)
  | declareProposition (proposition : P)
  | labelState (state : S) (proposition : P)
  | label (id : Nat) (proposition : P)
  deriving DecidableEq, Repr

/-- What a call that is accepted has to say. -/
inductive Answer where
  | done
  /-- The number of a state. -/
  | number (id : Nat)
  /-- The number of a state that was handed in, and whether it is new. -/
  | entered (id : Nat) (isNew : Bool)
  /-- Whether something is new. -/
  | added (isNew : Bool)
  deriving DecidableEq, Repr

/-- One thing that a transition system says. -/
inductive Fact (S A P : Type) where
  | state (id : Nat) (s : S)
  | initial (id : Nat)
  | action (a : A)
  | transition (step : Transition Nat A)
  | proposition (p : P)
  | label (id : Nat) (p : P)
  deriving DecidableEq, Repr

variable {S A P : Type}

namespace Call

/-- The state a call hands in, if it does that. -/
def inserts? : Call S A P → Option S
  | insertState state => some state
  | _ => none

/-- The states that calls hand in, in order. -/
def inserted (calls : List (Call S A P)) : List S :=
  calls.filterMap inserts?

/-- What a call refers to, in the order in which it is looked at. A reference is given as
    the error that it is refused with. -/
def references : Call S A P → List (ReferenceError S A P)
  | insertState _ | declareAction _ | declareProposition _ => []
  | markInitialState s => [.unknownState s]
  | markInitial id => [.unknownId id]
  | connectStates step =>
    [.unknownState step.source, .unknownState step.target, .unknownAction step.action]
  | connect step => [.unknownId step.source, .unknownId step.target, .unknownAction step.action]
  | labelState s p => [.unknownState s, .unknownProposition p]
  | label id p => [.unknownId id, .unknownProposition p]

/-- The fact that a call adds to a system. A call by states is about their numbers. -/
inductive Asserts [DecidableEq S] (t : TransitionSystem S A P) :
    Call S A P → Fact S A P → Prop where
  | insertState (s : S) : Asserts t (.insertState s) (.state (t.insertState s).2.1 s)
  | markInitialState {id : Nat} {s : S} (h : t.state? id = some s) :
      Asserts t (.markInitialState s) (.initial id)
  | markInitial (id : Nat) : Asserts t (.markInitial id) (.initial id)
  | declareAction (a : A) : Asserts t (.declareAction a) (.action a)
  | connectStates {step : Transition S A} {source target : Nat}
      (hsource : t.state? source = some step.source)
      (htarget : t.state? target = some step.target) :
      Asserts t (.connectStates step) (.transition ⟨source, step.action, target⟩)
  | connect (step : Transition Nat A) : Asserts t (.connect step) (.transition step)
  | declareProposition (p : P) : Asserts t (.declareProposition p) (.proposition p)
  | labelState {id : Nat} {s : S} (h : t.state? id = some s) (p : P) :
      Asserts t (.labelState s p) (.label id p)
  | label (id : Nat) (p : P) : Asserts t (.label id p) (.label id p)

end Call

namespace TransitionSystem

/-- The system says a fact. -/
def Has (t : TransitionSystem S A P) : Fact S A P → Prop
  | .state id s => t.state? id = some s
  | .initial id => id ∈ t.initial
  | .action a => a ∈ t.actions
  | .transition step => step ∈ t.transitions
  | .proposition p => p ∈ t.propositions
  | .label id p => ∃ labels, t.labelsAt? id = some labels ∧ p ∈ labels

variable [DecidableEq S]

/-- Everything that a fact refers to is there. The number of a state is the one it has, or
    the one it gets. -/
def Admits (t : TransitionSystem S A P) : Fact S A P → Prop
  | .state id s => id = (t.insertState s).2.1
  | .initial id => id < t.states.size
  | .transition step =>
    step.source < t.states.size ∧ step.target < t.states.size ∧ step.action ∈ t.actions
  | .label id p => id < t.states.size ∧ p ∈ t.propositions
  | .action _ | .proposition _ => True

variable [DecidableEq A] [DecidableEq P]

/-- The thing that a reference is to is not there. -/
def lacks (t : TransitionSystem S A P) : ReferenceError S A P → Bool
  | .unknownState s => s ∉ t.states
  | .unknownId id => t.states.size ≤ id
  | .unknownAction a => a ∉ t.actions
  | .unknownProposition p => p ∉ t.propositions

/-- The system with one more fact. A new state comes with labels of its own, still empty. -/
def enter (t : TransitionSystem S A P) : Fact S A P → TransitionSystem S A P
  | .state _ s => (t.insertState s).1
  | .initial id => { t with initial := t.initial.insert id }
  | .action a => { t with actions := t.actions.insert a }
  | .transition step => { t with transitions := t.transitions.insert step }
  | .proposition p => { t with propositions := t.propositions.insert p }
  | .label id p => { t with labels := t.labels.modify id (·.insert p) }

end TransitionSystem

/-- What an answer tells about the fact that a call asserts: the number it is about, and
    whether the system did not have it before. -/
def Answer.Tells (t : TransitionSystem S A P) (fact : Fact S A P) : Answer → Prop
  | .done => True
  | .number id => fact = .initial id
  | .entered id isNew => (∃ s, fact = .state id s) ∧ (isNew = true ↔ ¬ t.Has fact)
  | .added isNew => isNew = true ↔ ¬ t.Has fact

namespace Change

variable {α β : Type} {t t' : TransitionSystem S A P}

theorem run_map_eq_ok_iff {f : α → β} {change : Change S A P α} {b : β} :
    (f <$> change).run t = .ok b t' ↔ ∃ a, change.run t = .ok a t' ∧ f a = b := by
  rw [map_eq_pure_bind, EStateM.run_bind]
  cases change.run t <;> simp [and_comm]

theorem run_map_eq_error_iff {f : α → β} {change : Change S A P α} {e : ReferenceError S A P} :
    (f <$> change).run t = .error e t' ↔ change.run t = .error e t' := by
  rw [map_eq_pure_bind, EStateM.run_bind]
  cases change.run t <;> simp

variable [DecidableEq S]

theorem run_requireState_bind_of_state? {s : S} {id : Nat} (h : t.state? id = some s)
    (f : Nat → Change S A P α) : (requireState s >>= f).run t = (f id).run t := by
  simp [requireState, TransitionSystem.idOf?_eq_some_iff.mpr h]

theorem run_requireState_bind_of_not_mem {s : S} (h : s ∉ t.states) (f : Nat → Change S A P α) :
    (requireState s >>= f).run t = .error (.unknownState s) t := by
  simp only [requireState, bind_assoc, EStateM.run_bind, EStateM.run_get,
    TransitionSystem.idOf?_eq_none_iff.mpr h]
  rfl

/-- After a state is looked up, its number is there for the rest. -/
theorem run_requireState_bind_eq_ok_iff {s : S} {f : Nat → Change S A P α} {a : α} :
    (requireState s >>= f).run t = .ok a t' ↔
      ∃ id, t.state? id = some s ∧ (f id).run t = .ok a t' := by
  by_cases hs : s ∈ t.states
  · rcases TransitionSystem.mem_states_iff.mp hs with ⟨id, hid⟩
    rw [run_requireState_bind_of_state? hid]
    constructor
    · intro h
      exact ⟨id, hid, h⟩
    · intro h
      rcases h with ⟨id', hid', h⟩
      rw [TransitionSystem.state?_inj hid hid']
      exact h
  · rw [run_requireState_bind_of_not_mem hs]
    constructor
    · intro h
      cases h
    · intro h
      rcases h with ⟨id, hid, -⟩
      exact absurd (TransitionSystem.mem_states_of_state? hid) hs

end Change

/-- Whether a state was new is told by its number: an old one had it before. -/
theorem Answer.tells_insertState [DecidableEq S] (t : TransitionSystem S A P) (s : S) :
    (Answer.entered (t.insertState s).2.1 (t.insertState s).2.2).Tells t
      (.state (t.insertState s).2.1 s) := by
  refine ⟨⟨s, rfl⟩, ?_⟩
  by_cases hs : s ∈ t.states
  · rcases TransitionSystem.mem_states_iff.mp hs with ⟨id, hid⟩
    simp [TransitionSystem.insertState_of_mem hid, TransitionSystem.Has, hid]
  · have hfree : t.state? t.states.size = none := List.getElem?_eq_none (Nat.le_refl _)
    simp [TransitionSystem.insertState_of_not_mem hs, TransitionSystem.Has, hfree]

section Changes

variable [DecidableEq S] [DecidableEq A] [DecidableEq P] {α β : Type}
  {t t' : TransitionSystem S A P}

/-- What a call does. -/
def Call.change : Call S A P → Change S A P Answer
  | insertState state => (fun told => .entered told.1 told.2) <$> Change.insertState state
  | markInitialState state => .number <$> Change.markInitialState state
  | markInitial id => (fun _ => .done) <$> Change.markInitial id
  | declareAction action => .added <$> Change.declareAction action
  | connectStates step => .added <$> Change.connectStates step
  | connect step => .added <$> Change.connect step
  | declareProposition proposition => .added <$> Change.declareProposition proposition
  | labelState state proposition => (fun _ => .done) <$> Change.labelState state proposition
  | label id proposition => (fun _ => .done) <$> Change.label id proposition

/-- The system after a call: what the change has left, refused or not. -/
def Call.apply (t : TransitionSystem S A P) (call : Call S A P) : TransitionSystem S A P :=
  match call.change.run t with
  | .ok _ changed => changed
  | .error _ left => left

/-- The system after a sequence of calls, from nothing. -/
def TransitionSystem.built (calls : List (Call S A P)) : TransitionSystem S A P :=
  calls.foldl Call.apply .empty

theorem TransitionSystem.built_append_singleton (calls : List (Call S A P)) (call : Call S A P) :
    built (calls ++ [call]) = call.apply (built calls) := by
  rw [built, List.foldl_append]
  rfl

namespace TransitionSystem

section Refusal

variable {refs : List (ReferenceError S A P)} {ref : ReferenceError S A P}

/-- A change is refused exactly with the first of some references that is to something
    absent, and leaves the system as it was. -/
def Refuses (t : TransitionSystem S A P) (refs : List (ReferenceError S A P))
    (change : Change S A P α) : Prop :=
  ∀ e t', change.run t = .error e t' ↔ refs.find? t.lacks = some e ∧ t' = t

namespace Refuses

theorem of_run_eq_ok {change : Change S A P α} {a : α} (h : change.run t = .ok a t') :
    t.Refuses [] change := by
  intro e u
  rw [h]
  simp

theorem map {f : α → β} {change : Change S A P α} (h : t.Refuses refs change) :
    t.Refuses refs (f <$> change) := by
  intro e u
  rw [Change.run_map_eq_error_iff]
  exact h e u

/-- The reference of a check is looked at before those of the rest. A check writes nothing,
    so the rest starts from the same system. -/
theorem require_bind {has : TransitionSystem S A P → Bool} {f : Unit → Change S A P α}
    (hhas : has t = !t.lacks ref) (hf : t.Refuses refs (f ())) :
    t.Refuses (ref :: refs) (Change.require has ref >>= f) := by
  intro e u
  rw [Change.run_require_bind, hhas]
  cases hlacks : t.lacks ref with
  | true => simp [hlacks, eq_comm]
  | false =>
      rw [List.find?_cons_of_neg (by simp [hlacks])]
      simpa using hf e u

theorem requireState_bind {s : S} {f : Nat → Change S A P α}
    (hf : ∀ id, t.state? id = some s → t.Refuses refs (f id)) :
    t.Refuses (.unknownState s :: refs) (Change.requireState s >>= f) := by
  intro e u
  by_cases hs : s ∈ t.states
  · rcases mem_states_iff.mp hs with ⟨id, hid⟩
    rw [Change.run_requireState_bind_of_state? hid, List.find?_cons_of_neg (by simp [lacks, hs])]
    exact hf id hid e u
  · rw [Change.run_requireState_bind_of_not_mem hs, List.find?_cons_of_pos (by simp [lacks, hs])]
    simp [eq_comm]

/-- A reference to something that is there may be left out. -/
theorem of_cons {change : Change S A P α} (h : t.Refuses (ref :: refs) change)
    (hthere : t.lacks ref = false) : t.Refuses refs change := by
  intro e u
  rw [h e u, List.find?_cons_of_neg (by simp [hthere])]

end Refuses

theorem lacks_unknownId_of_state? {id : Nat} {s : S} (h : t.state? id = some s) :
    t.lacks (.unknownId id) = false := by
  have hlt := lt_size_of_state? h
  simp [lacks, hlt]

theorem not_lacks_unknownId (t : TransitionSystem S A P) (id : Nat) :
    decide (id < t.states.size) = !t.lacks (.unknownId id) := by
  rw [lacks, ← decide_not]
  exact decide_eq_decide.mpr Nat.not_le.symm

theorem refuses_markInitial (id : Nat) : t.Refuses [.unknownId id] (Change.markInitial id) :=
  .require_bind (t.not_lacks_unknownId _) (.of_run_eq_ok rfl)

theorem refuses_connect (step : Transition Nat A) :
    t.Refuses [.unknownId step.source, .unknownId step.target, .unknownAction step.action]
      (Change.connect step) := by
  refine .require_bind (t.not_lacks_unknownId _) ?_
  refine .require_bind (t.not_lacks_unknownId _) ?_
  exact .require_bind (by simp [lacks]) (.of_run_eq_ok rfl)

theorem refuses_label (id : Nat) (p : P) :
    t.Refuses [.unknownId id, .unknownProposition p] (Change.label id p) := by
  refine .require_bind (t.not_lacks_unknownId _) ?_
  exact .require_bind (by simp [lacks]) (.of_run_eq_ok rfl)

end Refusal

end TransitionSystem

namespace Call

open TransitionSystem

/-- A call is refused exactly with the first of its references that is to something absent,
    and then the system is as it was. A call by states goes on to the call by numbers, where
    the numbers need no second look. -/
theorem refuses_change (t : TransitionSystem S A P) (call : Call S A P) :
    t.Refuses call.references call.change := by
  cases call with
  | insertState s => exact .map (.of_run_eq_ok rfl)
  | markInitialState s =>
      refine .map (.requireState_bind fun id hid => ?_)
      exact .of_run_eq_ok rfl
  | markInitial id => exact .map (refuses_markInitial id)
  | declareAction a => exact .map (.of_run_eq_ok rfl)
  | connectStates step =>
      refine .map (.requireState_bind fun source hsource => ?_)
      refine .requireState_bind fun target htarget => ?_
      have hthere := lacks_unknownId_of_state? hsource
      have hthere' := lacks_unknownId_of_state? htarget
      exact ((refuses_connect ⟨source, step.action, target⟩).of_cons hthere).of_cons hthere'
  | connect step => exact .map (refuses_connect step)
  | declareProposition p => exact .map (.of_run_eq_ok rfl)
  | labelState s p =>
      refine .map (.requireState_bind fun id hid => ?_)
      exact (refuses_label id p).of_cons (lacks_unknownId_of_state? hid)
  | label id p => exact .map (refuses_label id p)

/-- A call that is accepted enters the fact that it asserts. -/
theorem exists_asserts_of_run {call : Call S A P} {answer : Answer}
    (h : call.change.run t = .ok answer t') :
    ∃ fact, call.Asserts t fact ∧ t.Admits fact ∧ t' = t.enter fact ∧ answer.Tells t fact := by
  cases call with
  | insertState s =>
      rcases Change.run_map_eq_ok_iff.mp h with ⟨told, hrun, rfl⟩
      cases hrun
      exact ⟨_, .insertState s, rfl, rfl, Answer.tells_insertState t s⟩
  | markInitialState s =>
      rcases Change.run_map_eq_ok_iff.mp h with ⟨told, hrun, rfl⟩
      rcases Change.run_requireState_bind_eq_ok_iff.mp hrun with ⟨id, hid, hmark⟩
      cases hmark
      exact ⟨_, .markInitialState hid, lt_size_of_state? hid, rfl, rfl⟩
  | markInitial id =>
      rcases Change.run_map_eq_ok_iff.mp h with ⟨told, hrun, rfl⟩
      rcases Change.run_markInitial_eq_ok_iff.mp hrun with ⟨hlt, rfl⟩
      exact ⟨_, .markInitial id, hlt, rfl, trivial⟩
  | declareAction a =>
      rcases Change.run_map_eq_ok_iff.mp h with ⟨told, hrun, rfl⟩
      cases hrun
      exact ⟨_, .declareAction a, trivial, rfl, decide_eq_true_iff⟩
  | connectStates step =>
      rcases Change.run_map_eq_ok_iff.mp h with ⟨told, hrun, rfl⟩
      rcases Change.run_requireState_bind_eq_ok_iff.mp hrun with ⟨source, hsource, hrest⟩
      rcases Change.run_requireState_bind_eq_ok_iff.mp hrest with ⟨target, htarget, hconnect⟩
      rcases Change.run_connect_eq_ok_iff.mp hconnect with ⟨hlt, hlt', haction, rfl, rfl⟩
      exact ⟨_, .connectStates hsource htarget, ⟨hlt, hlt', haction⟩, rfl, decide_eq_true_iff⟩
  | connect step =>
      rcases Change.run_map_eq_ok_iff.mp h with ⟨told, hrun, rfl⟩
      rcases Change.run_connect_eq_ok_iff.mp hrun with ⟨hlt, hlt', haction, rfl, rfl⟩
      exact ⟨_, .connect step, ⟨hlt, hlt', haction⟩, rfl, decide_eq_true_iff⟩
  | declareProposition p =>
      rcases Change.run_map_eq_ok_iff.mp h with ⟨told, hrun, rfl⟩
      cases hrun
      exact ⟨_, .declareProposition p, trivial, rfl, decide_eq_true_iff⟩
  | labelState s p =>
      rcases Change.run_map_eq_ok_iff.mp h with ⟨told, hrun, rfl⟩
      rcases Change.run_requireState_bind_eq_ok_iff.mp hrun with ⟨id, hid, hlabel⟩
      rcases Change.run_label_eq_ok_iff.mp hlabel with ⟨hlt, hp, rfl⟩
      exact ⟨_, .labelState hid p, ⟨hlt, hp⟩, rfl, trivial⟩
  | label id p =>
      rcases Change.run_map_eq_ok_iff.mp h with ⟨told, hrun, rfl⟩
      rcases Change.run_label_eq_ok_iff.mp hrun with ⟨hlt, hp, rfl⟩
      exact ⟨_, .label id p, ⟨hlt, hp⟩, rfl, trivial⟩

/-- Every call enters the fact that it asserts, or does nothing. -/
theorem apply_cases (t : TransitionSystem S A P) (call : Call S A P) :
    (∃ fact, call.Asserts t fact ∧ t.Admits fact ∧ call.apply t = t.enter fact) ∨
      (call.references ≠ [] ∧ call.apply t = t) := by
  cases hrun : call.change.run t with
  | ok answer t' =>
      rcases exists_asserts_of_run hrun with ⟨fact, hasserts, hadmits, rfl, -⟩
      refine Or.inl ⟨fact, hasserts, hadmits, ?_⟩
      rw [apply, hrun]
  | error e t' =>
      rcases (call.refuses_change t e t').mp hrun with ⟨hfirst, rfl⟩
      refine Or.inr ⟨?_, by rw [apply, hrun]⟩
      intro hnone
      rw [hnone] at hfirst
      cases hfirst

end Call

end Changes

end Interleaving
