import Interleaving.Proofs.Exploration.Numbering

/-!
# One Queue Instead of Levels

The search keeps two lists of numbers, the level that is being expanded and the states that
have come in since, and changes them over at the end of a level. Without limits this is more
than it needs. The numbers of a level are an interval, the next level is the interval after
it, and so the search might as well go through the numbers one by one: as long as there is a
state with the next number, its inputs are followed, and states that were not met before
join at the end. This is `Dynamics.queue`. It has no levels, no limits and no checks, and
what it has found is written out at the end.

A queue shows a system if it has the same states and has taken the same steps. The inputs of
a state keep this, and where one of them fails, both sides fail.

## Main definitions

* `Queue`: States in order, and the steps taken from the first of them.
* `Dynamics.serve`: What a queue does with one state.
* `Dynamics.queue`: The plain algorithm.
* `Queue.Shows`: A queue has found what is in a system.

## Theorems

* `Queue.Shows.record`: One input.
* `Dynamics.follow_tracks_serveInputs`: The inputs of a state.
* `Dynamics.serveFrom_eq_of_ended`: What comes out of a queue does not depend on the rounds.
-/

namespace Interleaving

variable {σ ι : Type}

/-- States in the order in which they came, and the steps that were taken from the first of
    them. -/
structure Queue (σ : Type) where
  /-- The states, each at its number. -/
  states : OrderedSet σ
  /-- The steps, in the order in which they were taken. -/
  steps : List (Transition Nat String)

namespace OrderedSet

variable {α : Type} [DecidableEq α]

theorem ofList_append_singleton (l : List α) (a : α) :
    ofList (l ++ [a]) = (ofList l).insert a := by
  rw [ofList, List.foldl_append]
  rfl

theorem idxOf_eq_of_get? {s : OrderedSet α} {a : α} {i : Nat} (h : s.get? i = some a) :
    s.toList.idxOf a = i := by
  rcases List.getElem?_eq_some_iff.mp h with ⟨hi, rfl⟩
  exact s.nodup.idxOf_getElem i hi

/-- A member keeps its place when others come after it. -/
theorem idxOf_eq_of_prefix {s t : OrderedSet α} {a : α} {i : Nat} (h : s.toList <+: t.toList)
    (ha : s.get? i = some a) : t.toList.idxOf a = i := by
  rcases h with ⟨more, hmore⟩
  rw [← hmore, List.idxOf_append_of_mem (List.mem_of_getElem? ha)]
  exact idxOf_eq_of_get? ha

end OrderedSet

namespace Queue

variable [DecidableEq σ]

/-- Takes a step. The state it leads to joins the queue at the end, unless it stands there. -/
def take (q : Queue σ) (source : Nat) (action : String) (target : σ) : Queue σ :=
  let states := q.states.insert target
  ⟨states, q.steps ++ [⟨source, action, states.toList.idxOf target⟩]⟩

/-- What a queue has found, written out with the labels of the states. -/
def system (q : Queue σ) (d : Dynamics Id σ ι) (starts : List σ) :
    TransitionSystem σ String String where
  arena := .ofSet q.states
  initial := .ofList (starts.map fun s => q.states.toList.idxOf s)
  actions := .ofList (q.steps.map (·.action))
  transitions := .ofList q.steps
  propositions := .ofList (q.states.toList.flatMap d.labels)
  labels := q.states.toList.map fun s => .ofList (d.labels s)
  in_step := Arena.inStep_ofSet q.states

end Queue

namespace Dynamics

variable [DecidableEq σ]

/-- Takes the steps of the inputs of a state, one after the other. -/
def serveInputs (d : Dynamics Id σ ι) (k : Nat) (s : σ) : List ι → Queue σ → Eval Id (Queue σ)
  | [], q => return q
  | input :: rest, q => do
    let target ← d.next s input
    d.serveInputs k s rest (q.take k (d.action input) target)

/-- Takes all steps that leave the state `s` with the number `k`. -/
def serve (d : Dynamics Id σ ι) (k : Nat) (s : σ) (q : Queue σ) : Eval Id (Queue σ) := do
  d.serveInputs k s (← d.inputs s) q

/-- Serves the states from number `k` on, as long as there is a state with the next number.
    Nothing comes out if there still is one after as many `rounds`. -/
def serveFrom (d : Dynamics Id σ ι) : (rounds k : Nat) → Queue σ → Eval Id (Option (Queue σ))
  | 0, k, q => return if k < q.states.size then none else some q
  | rounds + 1, k, q =>
    match q.states.get? k with
    | none => return some q
    | some s => do
      let q ← d.serve k s q
      d.serveFrom rounds (k + 1) q

/-- The initial states join the queue, and then the states are served from number zero on. -/
def queue (d : Dynamics Id σ ι) (rounds : Nat) :
    Eval Id (Option (TransitionSystem σ String String)) := do
  let starts ← d.initial
  let served ← d.serveFrom rounds 0 ⟨.ofList starts, []⟩
  return served.map (·.system d starts)

end Dynamics

/-- A queue has the states of a system, and has taken its steps. -/
structure Queue.Shows (q : Queue σ) (system : TransitionSystem σ String String) : Prop where
  states_eq : system.states = q.states
  actions_eq : system.actions = .ofList (q.steps.map (·.action))
  transitions_eq : system.transitions = .ofList q.steps

/-- A question of an exploration, and the same question by itself. -/
theorem Explore.ask_tracks_self {α : Type} (x : Eval Id α) :
    Tracks (fun err e => err = .eval e) Eq (Explore.ask x : Explore Id σ α) x := by
  cases hx : x.run with
  | error e => exact .error (Explore.run_ask_eq_error_iff.mpr ⟨e, rfl, hx⟩) hx rfl
  | ok a => exact .ok (Explore.run_ask_eq_ok_iff.mpr hx) hx rfl

namespace Queue.Shows

variable {q : Queue σ} {system : TransitionSystem σ String String}

theorem state?_eq (h : q.Shows system) (id : Nat) : system.state? id = q.states.get? id := by
  rw [TransitionSystem.state?, h.states_eq]

variable [DecidableEq σ]

/-- A step to the state with the number `id`, which has joined the queue by then. -/
theorem take (h : q.Shows system) {system' : TransitionSystem σ String String} {source id : Nat}
    {action : String} {target : σ} (hstates : system'.states = q.states.insert target)
    (hactions : system'.actions = system.actions.insert action)
    (htransitions : system'.transitions = system.transitions.insert ⟨source, action, id⟩)
    (hid : system'.state? id = some target) : (q.take source action target).Shows system' where
  states_eq := hstates
  actions_eq := by
    rw [Queue.take, List.map_append, List.map_singleton, OrderedSet.ofList_append_singleton,
      ← h.actions_eq]
    exact hactions
  transitions_eq := by
    rw [TransitionSystem.state?, hstates] at hid
    rw [Queue.take, OrderedSet.idxOf_eq_of_get? hid, OrderedSet.ofList_append_singleton,
      ← h.transitions_eq]
    exact htransitions

/-- Without limits every step is recorded, and the queue takes it too. -/
theorem record {search : Search σ} {source : Nat} {s : σ} (h : q.Shows search.system)
    (hs : search.system.state? source = some s) (action : String) (target : σ) :
    ∃ search', search.record .unbounded source action target = .ok search' ∧
      search'.full = search.full ∧ (q.take source action target).Shows search'.system := by
  by_cases htarget : target ∈ search.system.states
  · rcases TransitionSystem.mem_states_iff.mp htarget with ⟨id, hid⟩
    refine ⟨_, Search.record_of_known hs hid, rfl, h.take ?_ rfl rfl hid⟩
    rw [← h.states_eq, OrderedSet.insert_of_mem htarget]
    rfl
  · refine ⟨_, Search.record_of_new hs htarget rfl, rfl, h.take ?_ rfl rfl
      (TransitionSystem.state?_withState_size htarget)⟩
    rw [← h.states_eq]
    exact search.system.states_withState target

end Queue.Shows

namespace Dynamics

variable [DecidableEq σ] {d : Dynamics Id σ ι}

/-- The inputs of a state, by induction on those that are left. -/
theorem follow_tracks_serveInputs {k : Nat} {s : σ} (inputs : List ι) {search : Search σ}
    {q : Queue σ} (hq : q.Shows search.system) (hs : search.system.state? k = some s)
    (hfull : search.full = false) :
    Tracks (fun err e => err = .eval e)
      (fun search' q' => search'.full = false ∧ q'.Shows search'.system)
      (d.follow .unbounded k s inputs search) (d.serveInputs k s inputs q) := by
  induction inputs generalizing search q with
  | nil => exact .pure ⟨hfull, hq⟩
  | cons input rest ih =>
      rw [follow, serveInputs]
      refine (Explore.ask_tracks_self (d.next s input)).bind ?_
      intro target target' _ htarget
      rw [← htarget]
      rcases hq.record hs (d.action input) target with ⟨mid, hrec, hmid, hq'⟩
      rw [hfull] at hmid
      rw [hrec, Explore.enter_ok, pure_bind, if_neg (by rw [hmid]; exact Bool.false_ne_true)]
      exact ih hq' ((Search.record_extends hrec).grows.state?_eq_some hs) hmid

theorem serveFrom_of_size_le {k : Nat} {q : Queue σ} (h : q.states.size ≤ k) (rounds : Nat) :
    d.serveFrom rounds k q = pure (some q) := by
  cases rounds with
  | zero => rw [serveFrom, if_neg (Nat.not_lt_of_le h)]
  | succ rounds =>
      have hnone : q.states.get? k = none := List.getElem?_eq_none h
      rw [serveFrom, hnone]

theorem serveFrom_zero_of_lt {k : Nat} {q : Queue σ} (h : k < q.states.size) :
    d.serveFrom 0 k q = pure none := by
  rw [serveFrom, if_pos h]

theorem serveFrom_succ {k : Nat} {q : Queue σ} {s : σ} (h : q.states.get? k = some s)
    (rounds : Nat) :
    d.serveFrom (rounds + 1) k q = d.serve k s q >>= d.serveFrom rounds (k + 1) := by
  rw [serveFrom, h]

/-- What has come out of a queue after some rounds comes out after more of them. -/
theorem serveFrom_eq_of_le {rounds more k : Nat} {q : Queue σ} (hle : rounds ≤ more)
    (hended : (d.serveFrom rounds k q).run ≠ .ok none) :
    (d.serveFrom more k q).run = (d.serveFrom rounds k q).run := by
  induction rounds generalizing more k q with
  | zero =>
      have hsize : q.states.size ≤ k := by
        by_contra hlt
        rw [serveFrom_zero_of_lt (by omega)] at hended
        exact hended rfl
      rw [serveFrom_of_size_le hsize, serveFrom_of_size_le hsize]
  | succ rounds ih =>
      cases hs : q.states.get? k with
      | none =>
          have hsize : q.states.size ≤ k := List.getElem?_eq_none_iff.mp hs
          rw [serveFrom_of_size_le hsize, serveFrom_of_size_le hsize]
      | some s =>
          rw [show more = (more - 1) + 1 by omega, serveFrom_succ hs, serveFrom_succ hs]
          rw [serveFrom_succ hs] at hended
          cases hserve : (d.serve k s q).run with
          | error e => rw [run_bind_of_error hserve, run_bind_of_error hserve]
          | ok q' =>
              rw [run_bind_of_ok hserve] at hended
              rw [run_bind_of_ok hserve, run_bind_of_ok hserve]
              exact ih (by omega) hended

theorem serveFrom_eq_of_ended {rounds rounds' k : Nat} {q : Queue σ}
    (hended : (d.serveFrom rounds k q).run ≠ .ok none)
    (hended' : (d.serveFrom rounds' k q).run ≠ .ok none) :
    (d.serveFrom rounds k q).run = (d.serveFrom rounds' k q).run := by
  rcases Nat.le_total rounds rounds' with hle | hle
  · exact (serveFrom_eq_of_le hle hended).symm
  · exact serveFrom_eq_of_le hle hended'

end Dynamics

end Interleaving
