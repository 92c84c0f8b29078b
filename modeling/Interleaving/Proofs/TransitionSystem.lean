import Interleaving.Exploration
import Mathlib.Data.List.Nodup

/-!
# How the Search Changes a System

A change of a system looks up what it refers to and then writes. The `run_`
lemmas say for each change what it refuses, in order, and what it writes; in all
of them the system that comes with a refusal is the one from before.

Every reference that the search hands to a transition system is to something it
has added before, so none is refused. The lemmas here say so once for each
change, and give the system that comes out: `withState` has one more state,
`withStep` one more transition together with its action, and `withLabel` one
more label together with its proposition. What the search does is afterwards
read off these three, and the checks do not come up again.

How a system is read is here too. Marks and transitions are by number, and
`initialStates` and `resolvedTransitions` put the states in; since every state
has one number, nothing comes out twice.

## Main definitions

* `TransitionSystem.Numbers`: The states below a number are those with a property.
* `TransitionSystem.withState`: A system with a new state at the end.
* `TransitionSystem.withStep`: A system with one more transition.
* `TransitionSystem.withLabel`: A system with one more label.

## Theorems

* `Change.run_markInitial`, `Change.run_connect`, `Change.run_label`: What a change
  refuses and what it does.
* `state?_withState`: The new state has the next number, the others keep theirs.
* `after_markInitial`, `after_enterStep`, `after_enterLabel`: References to known
  things are accepted.
* `record_of_known`, `record_of_new`, `record_of_full`: The three things that can
  happen to a step.
-/

namespace Interleaving

namespace Change

variable {S A P α : Type} {t t' : TransitionSystem S A P}

/-- A check writes nothing, so what comes after it sees the same system. -/
theorem run_require_bind (has : TransitionSystem S A P → Bool) (ref : ReferenceError S A P)
    (f : Unit → Change S A P α) : (require has ref >>= f).run t =
      if has t then (f ()).run t else .error ref t := by
  by_cases h : has t
  · simp [require, h]
  · simp [require, h]

theorem run_markInitial (id : Nat) : (markInitial id).run t =
    if id < t.states.size then .ok () { t with initial := t.initial.insert id }
    else .error (.unknownId id) t := by
  simp only [markInitial, requireId, run_require_bind, decide_eq_true_eq]
  rfl

/-- A number is marked exactly if it is the number of a state. -/
theorem run_markInitial_eq_ok_iff {id : Nat} {u : Unit} : (markInitial id).run t = .ok u t' ↔
    id < t.states.size ∧ t' = { t with initial := t.initial.insert id } := by
  rw [run_markInitial]
  by_cases hid : id < t.states.size <;> simp [hid, eq_comm]

section Steps

variable [DecidableEq A]

theorem run_connect (step : Transition Nat A) : (connect step).run t =
    if step.source < t.states.size then
      if step.target < t.states.size then
        if step.action ∈ t.actions then
          .ok (step ∉ t.transitions) { t with transitions := t.transitions.insert step }
        else .error (.unknownAction step.action) t
      else .error (.unknownId step.target) t
    else .error (.unknownId step.source) t := by
  simp only [connect, requireId, requireAction, run_require_bind, decide_eq_true_eq]
  rfl

/-- A transition is accepted exactly if its ends and its action are there. -/
theorem run_connect_eq_ok_iff {step : Transition Nat A} {isNew : Bool} :
    (connect step).run t = .ok isNew t' ↔
      step.source < t.states.size ∧ step.target < t.states.size ∧ step.action ∈ t.actions ∧
        isNew = decide (step ∉ t.transitions) ∧
        t' = { t with transitions := t.transitions.insert step } := by
  rw [run_connect]
  by_cases hsource : step.source < t.states.size <;>
    by_cases htarget : step.target < t.states.size <;>
      by_cases haction : step.action ∈ t.actions <;>
        simp [hsource, htarget, haction, eq_comm]

end Steps

section Labels

variable [DecidableEq P]

theorem run_label (id : Nat) (p : P) : (label id p).run t =
    if id < t.states.size then
      if p ∈ t.propositions then .ok () { t with labels := t.labels.modify id (·.insert p) }
      else .error (.unknownProposition p) t
    else .error (.unknownId id) t := by
  simp only [label, requireId, requireProposition, run_require_bind, decide_eq_true_eq]
  rfl

/-- A label is accepted exactly if its state and its proposition are there. -/
theorem run_label_eq_ok_iff {id : Nat} {p : P} {u : Unit} : (label id p).run t = .ok u t' ↔
    id < t.states.size ∧ p ∈ t.propositions ∧
      t' = { t with labels := t.labels.modify id (·.insert p) } := by
  rw [run_label]
  by_cases hid : id < t.states.size <;> by_cases hp : p ∈ t.propositions <;>
    simp [hid, hp, eq_comm]

end Labels

end Change

namespace TransitionSystem

variable {S A P : Type}

theorem lt_size_of_state? {t : TransitionSystem S A P} {id : Nat} {s : S}
    (h : t.state? id = some s) : id < t.states.size :=
  OrderedSet.lt_size_of_get? h

theorem exists_state?_of_lt {t : TransitionSystem S A P} {id : Nat} (h : id < t.states.size) :
    ∃ s, t.state? id = some s :=
  OrderedSet.exists_get?_of_lt h

theorem mem_states_iff {t : TransitionSystem S A P} {s : S} :
    s ∈ t.states ↔ ∃ id, t.state? id = some s :=
  OrderedSet.mem_iff_exists_get?

theorem mem_states_of_state? {t : TransitionSystem S A P} {id : Nat} {s : S}
    (h : t.state? id = some s) : s ∈ t.states :=
  mem_states_iff.mpr ⟨id, h⟩

/-- The states determine the arena, and so a system is determined by them and all else. -/
theorem eq_of_states_eq {t u : TransitionSystem S A P} (hstates : t.states = u.states)
    (hinitial : t.initial = u.initial) (hactions : t.actions = u.actions)
    (htransitions : t.transitions = u.transitions) (hpropositions : t.propositions = u.propositions)
    (hlabels : t.labels = u.labels) : t = u := by
  have harena : t.arena = u.arena :=
    Arena.eq_of_members_eq t.in_step u.in_step (congrArg OrderedSet.toList hstates)
  cases t
  cases u
  cases harena
  cases hinitial
  cases hactions
  cases htransitions
  cases hpropositions
  cases hlabels
  rfl

theorem stateAt_of_state? {t : TransitionSystem S A P} {id : Nat} {s : S}
    (h : t.state? id = some s) : t.stateAt id = .ok s := by
  rw [stateAt, h]

theorem state?_of_stateAt {t : TransitionSystem S A P} {id : Nat} {s : S}
    (h : t.stateAt id = .ok s) : t.state? id = some s := by
  rw [stateAt] at h
  cases hs : t.state? id with
  | none =>
      rw [hs] at h
      cases h
  | some u =>
      rw [hs] at h
      cases h
      rfl

theorem after_eq_ok_iff {α : Type} {t t' : TransitionSystem S A P} {change : Change S A P α} :
    t.after change = .ok t' ↔ ∃ a, change.run t = .ok a t' := by
  rw [after]
  cases change.run t <;> simp

theorem after_markInitial {t : TransitionSystem S A P} {id : Nat} {s : S}
    (h : t.state? id = some s) :
    t.after (Change.markInitial id) = .ok { t with initial := t.initial.insert id } :=
  after_eq_ok_iff.mpr ⟨(), Change.run_markInitial_eq_ok_iff.mpr ⟨lt_size_of_state? h, rfl⟩⟩

/-- The states with a number below `bound` are exactly those with the property
    `p`. -/
def Numbers (t : TransitionSystem S A P) (bound : Nat) (p : S → Prop) : Prop :=
  ∀ s, p s ↔ ∃ id < bound, t.state? id = some s

theorem numbers_size_iff {t : TransitionSystem S A P} {p : S → Prop} :
    t.Numbers t.states.size p ↔ ∀ s, p s ↔ s ∈ t.states := by
  have hmem : ∀ s, (∃ id < t.states.size, t.state? id = some s) ↔ s ∈ t.states := by
    intro s
    rw [mem_states_iff]
    constructor
    · intro h
      rcases h with ⟨id, -, hid⟩
      exact ⟨id, hid⟩
    · intro h
      rcases h with ⟨id, hid⟩
      exact ⟨id, lt_size_of_state? hid, hid⟩
  simp only [Numbers, hmem]

theorem mem_initialStates_iff {t : TransitionSystem S A P} {s : S} :
    s ∈ t.initialStates ↔ ∃ id ∈ t.initial, t.state? id = some s := by
  rw [initialStates, initialIds, OrderedSet.sorted, sortByOrder, List.mem_filterMap]
  simp only [List.mem_mergeSort, OrderedSet.mem_toList]

theorem resolve?_eq_some_iff {t : TransitionSystem S A P} {step : Transition Nat A}
    {resolved : Transition S A} :
    t.resolve? step = some resolved ↔ t.state? step.source = some resolved.source ∧
      step.action = resolved.action ∧ t.state? step.target = some resolved.target := by
  rw [resolve?]
  constructor
  · intro h
    rcases Option.bind_eq_some_iff.mp h with ⟨source, hsource, h⟩
    rcases Option.bind_eq_some_iff.mp h with ⟨target, htarget, h⟩
    cases h
    exact ⟨hsource, rfl, htarget⟩
  · intro h
    rcases h with ⟨hsource, haction, htarget⟩
    rw [hsource, htarget, haction]
    rfl

theorem mem_resolvedTransitions_iff {t : TransitionSystem S A P} {resolved : Transition S A} :
    resolved ∈ t.resolvedTransitions ↔ ∃ source target,
      ⟨source, resolved.action, target⟩ ∈ t.transitions ∧
      t.state? source = some resolved.source ∧ t.state? target = some resolved.target := by
  rw [resolvedTransitions, List.mem_filterMap]
  constructor
  · intro h
    rcases h with ⟨⟨source, action, target⟩, hstep, hresolve⟩
    rcases resolve?_eq_some_iff.mp hresolve with ⟨hsource, haction, htarget⟩
    simp only at haction
    exact ⟨source, target, haction ▸ hstep, hsource, htarget⟩
  · intro h
    rcases h with ⟨source, target, hstep, hsource, htarget⟩
    exact ⟨_, hstep, resolve?_eq_some_iff.mpr ⟨hsource, rfl, htarget⟩⟩

section Steps

variable [DecidableEq A]

/-- The system with one more transition, and its action with it. -/
def withStep (t : TransitionSystem S A P) (step : Transition Nat A) : TransitionSystem S A P :=
  { t with
    actions := t.actions.insert step.action
    transitions := t.transitions.insert step }

theorem states_withStep (t : TransitionSystem S A P) (step : Transition Nat A) :
    (t.withStep step).states = t.states := rfl

/-- Once its action is declared, a transition is accepted exactly if its ends are there. -/
theorem after_enterStep_eq_ok_iff {t t' : TransitionSystem S A P} {step : Transition Nat A} :
    t.after (Change.enterStep step) = .ok t' ↔
      step.source < t.states.size ∧ step.target < t.states.size ∧ t' = t.withStep step := by
  have hrun : (Change.enterStep step).run t =
      (Change.connect step).run { t with actions := t.actions.insert step.action } := rfl
  have haction : step.action ∈ t.actions.insert step.action := OrderedSet.mem_insert.mpr (.inl rfl)
  simp only [after_eq_ok_iff, hrun, Change.run_connect_eq_ok_iff, haction, true_and,
    exists_and_left, exists_eq_left]
  rfl

theorem after_enterStep {t : TransitionSystem S A P} {step : Transition Nat A} {s u : S}
    (hsource : t.state? step.source = some s) (htarget : t.state? step.target = some u) :
    t.after (Change.enterStep step) = .ok (t.withStep step) :=
  after_enterStep_eq_ok_iff.mpr ⟨lt_size_of_state? hsource, lt_size_of_state? htarget, rfl⟩

end Steps

section Labels

variable [DecidableEq P]

/-- The system with one more label at a state, and its proposition with it. -/
def withLabel (t : TransitionSystem S A P) (id : Nat) (p : P) : TransitionSystem S A P :=
  { t with
    propositions := t.propositions.insert p
    labels := t.labels.modify id (·.insert p) }

theorem after_enterLabel {t : TransitionSystem S A P} {id : Nat} {s : S}
    (h : t.state? id = some s) (p : P) :
    t.after (Change.enterLabel id p) = .ok (t.withLabel id p) := by
  have hrun : (Change.enterLabel id p).run t =
      (Change.label id p).run { t with propositions := t.propositions.insert p } := rfl
  have hp : p ∈ t.propositions.insert p := OrderedSet.mem_insert.mpr (.inl rfl)
  refine after_eq_ok_iff.mpr ⟨(), ?_⟩
  rw [hrun, Change.run_label_eq_ok_iff]
  exact ⟨lt_size_of_state? h, hp, rfl⟩

end Labels

section States

variable [DecidableEq S]

theorem inStep_insert (t : TransitionSystem S A P) (s : S) : (t.arena.insert s).1.InStep :=
  t.in_step.insert s

/-- The system with a new state at the end. It has no labels yet. -/
def withState (t : TransitionSystem S A P) (s : S) : TransitionSystem S A P :=
  { t with
    arena := (t.arena.insert s).1
    labels := t.labels ++ [.empty]
    in_step := t.inStep_insert s }

theorem states_withState (t : TransitionSystem S A P) (s : S) :
    (t.withState s).states = t.states.insert s := by
  refine OrderedSet.eq_of_toList_eq ?_
  show (t.arena.insert s).1.members = (t.states.insert s).toList
  by_cases hs : s ∈ t.states
  · rcases mem_states_iff.mp hs with ⟨id, hid⟩
    rw [Arena.insert_of_getElem? t.in_step hid, OrderedSet.insert_of_mem hs]
    rfl
  · rw [Arena.insert_of_not_mem t.in_step hs, OrderedSet.toList_insert_of_not_mem hs]
    rfl

theorem mem_states_withState {t : TransitionSystem S A P} {s u : S} :
    u ∈ (t.withState s).states ↔ u = s ∨ u ∈ t.states := by
  rw [states_withState, OrderedSet.mem_insert]

theorem state?_inj {t : TransitionSystem S A P} {i j : Nat} {s : S} (hi : t.state? i = some s)
    (hj : t.state? j = some s) : i = j :=
  OrderedSet.get?_inj hi hj

theorem idOf?_eq_some_iff {t : TransitionSystem S A P} {id : Nat} {s : S} :
    t.idOf? s = some id ↔ t.state? id = some s :=
  Arena.find?_eq_some_iff t.in_step

theorem idOf?_eq_none_iff {t : TransitionSystem S A P} {s : S} :
    t.idOf? s = none ↔ s ∉ t.states :=
  Arena.find?_eq_none_iff t.in_step

theorem size_withState {t : TransitionSystem S A P} {s : S} (h : s ∉ t.states) :
    (t.withState s).states.size = t.states.size + 1 := by
  rw [states_withState]
  exact OrderedSet.size_insert_of_not_mem h

theorem state?_withState {t : TransitionSystem S A P} {s : S} (h : s ∉ t.states) (id : Nat) :
    (t.withState s).state? id = if id = t.states.size then some s else t.state? id := by
  rw [state?, states_withState]
  exact OrderedSet.get?_insert_of_not_mem h id

theorem state?_withState_size {t : TransitionSystem S A P} {s : S} (h : s ∉ t.states) :
    (t.withState s).state? t.states.size = some s := by
  rw [state?_withState h, if_pos rfl]

theorem state?_withState_of_lt {t : TransitionSystem S A P} {s : S} (h : s ∉ t.states) {id : Nat}
    (hid : id < t.states.size) : (t.withState s).state? id = t.state? id := by
  rw [state?_withState h, if_neg (by omega)]

theorem state?_withState_of_state? {t : TransitionSystem S A P} {s u : S} (h : s ∉ t.states)
    {id : Nat} (hu : t.state? id = some u) : (t.withState s).state? id = some u := by
  rw [state?_withState_of_lt h (lt_size_of_state? hu), hu]

theorem insertState_of_mem {t : TransitionSystem S A P} {id : Nat} {s : S}
    (h : t.state? id = some s) : t.insertState s = (t, id, false) := by
  have hinsert := Arena.insert_of_getElem? t.in_step h
  simp only [insertState, hinsert]
  rfl

theorem insertState_of_not_mem {t : TransitionSystem S A P} {s : S} (h : s ∉ t.states) :
    t.insertState s = (t.withState s, t.states.size, true) := by
  have hinsert := Arena.insert_of_not_mem t.in_step h
  simp only [insertState, withState, hinsert]
  rfl

theorem Numbers.withState {t : TransitionSystem S A P} {bound : Nat} {p : S → Prop}
    (h : t.Numbers bound p) (hbound : bound ≤ t.states.size) {u : S} (hu : u ∉ t.states) :
    (t.withState u).Numbers bound p := by
  intro s
  rw [h s]
  constructor
  · intro hs
    rcases hs with ⟨id, hid, hs⟩
    exact ⟨id, hid, state?_withState_of_state? hu hs⟩
  · intro hs
    rcases hs with ⟨id, hid, hs⟩
    rw [state?_withState_of_lt hu (by omega)] at hs
    exact ⟨id, hid, hs⟩

theorem initialStates_nodup (t : TransitionSystem S A P) : t.initialStates.Nodup := by
  refine List.Nodup.filterMap ?_ ?_
  · intro i j s hi hj
    exact state?_inj hi hj
  · exact (List.mergeSort_perm _ _).nodup_iff.mpr t.initial.nodup

theorem resolvedTransitions_nodup (t : TransitionSystem S A P) :
    t.resolvedTransitions.Nodup := by
  refine List.Nodup.filterMap ?_ t.transitions.nodup
  intro step step' resolved h h'
  rcases resolve?_eq_some_iff.mp h with ⟨hsource, haction, htarget⟩
  rcases resolve?_eq_some_iff.mp h' with ⟨hsource', haction', htarget'⟩
  rcases step with ⟨source, action, target⟩
  rcases step' with ⟨source', action', target'⟩
  -- Equal states have equal numbers, so the two agree in every part.
  congr 1
  · exact state?_inj hsource hsource'
  · exact haction.trans haction'.symm
  · exact state?_inj htarget htarget'

end States

end TransitionSystem

namespace Search

variable {σ : Type}

theorem connect_of_state? {search : Search σ} {step : Transition Nat String} {s u : σ}
    (hsource : search.system.state? step.source = some s)
    (htarget : search.system.state? step.target = some u) :
    search.connect step = .ok { search with system := search.system.withStep step } := by
  rw [connect, TransitionSystem.after_enterStep hsource htarget]
  rfl

variable [DecidableEq σ]

/-- A step to a state that is known is recorded. -/
theorem record_of_known {search : Search σ} {limits : Limits} {source id : Nat} {action : String}
    {s target : σ} (hsource : search.system.state? source = some s)
    (htarget : search.system.state? id = some target) :
    search.record limits source action target =
      .ok { search with system := search.system.withStep ⟨source, action, id⟩ } := by
  rw [record, TransitionSystem.idOf?_eq_some_iff.mpr htarget]
  exact connect_of_state? hsource htarget

/-- A step to a new state that may not be kept fills the search. -/
theorem record_of_full {search : Search σ} {limits : Limits} {source : Nat} {action : String}
    {target : σ} (htarget : target ∉ search.system.states)
    (hlimit : limits.statesReached search.system.states.size = true) :
    search.record limits source action target = .ok { search with full := true } := by
  rw [record, TransitionSystem.idOf?_eq_none_iff.mpr htarget]
  simp only [if_pos hlimit]

/-- A step to a new state that may be kept is recorded, and so is the state. -/
theorem record_of_new {search : Search σ} {limits : Limits} {source : Nat} {action : String}
    {s target : σ} (hsource : search.system.state? source = some s)
    (htarget : target ∉ search.system.states)
    (hlimit : limits.statesReached search.system.states.size = false) :
    search.record limits source action target =
      .ok { search with
        system := (search.system.withState target).withStep
          ⟨source, action, search.system.states.size⟩
        fresh := search.fresh ++ [search.system.states.size] } := by
  rw [record, TransitionSystem.idOf?_eq_none_iff.mpr htarget]
  simp only [hlimit, TransitionSystem.insertState_of_not_mem htarget]
  exact connect_of_state? (TransitionSystem.state?_withState_of_state? htarget hsource)
    (TransitionSystem.state?_withState_size htarget)

/-- A step from a known state is never refused. -/
theorem exists_record_eq_ok {search : Search σ} {source : Nat} {s : σ}
    (hsource : search.system.state? source = some s) (limits : Limits) (action : String)
    (target : σ) : ∃ search', search.record limits source action target = .ok search' := by
  by_cases htarget : target ∈ search.system.states
  · rcases TransitionSystem.mem_states_iff.mp htarget with ⟨id, hid⟩
    exact ⟨_, record_of_known hsource hid⟩
  · cases hlimit : limits.statesReached search.system.states.size with
    | true => exact ⟨_, record_of_full htarget hlimit⟩
    | false => exact ⟨_, record_of_new hsource htarget hlimit⟩

end Search

end Interleaving
