import Interleaving.Proofs.Exploration.Queue
import Interleaving.Proofs.Exploration.Soundness

/-!
# Rounds and Levels

An exploration without limits and the plain algorithm with one queue are compared one state
at a time. At every position of the search the queue shows the system. One round of it does
what the search does with the next state, or fails in the same way, `Passes.round`. At the
end of a level the search turns to the next one, and the queue has nothing to do,
`Passes.exists_turn`. Their budgets count different things, levels and states, so each
direction is an induction on the budget of the side that has ended.

With this and with what is known about numbers, every exploration goes through the states by
number and by distance, whether or not it has limits.

## Main definitions

* `Dynamics.resume`: What is left of a search without limits.
* `EndsLike`: A search and a queue have ended in the same way.

## Theorems

* `Dynamics.Passes.round`: One state of a level is one round.
* `Dynamics.Passes.exists_rounds`, `Dynamics.Passes.exists_budget`: One side ends if the
  other one does.
* `Entered.initial_enterInitial`: The initial states are marked in order.
* `Dynamics.exists_start`: Both sides start in the same position.
* `explore_goes_by_number`: An exploration without limits is a queue, and every exploration
  goes by number and by distance.
-/

namespace Interleaving

variable {σ ι : Type}

/-- What is left of a search without limits: the rest of its level, and the levels after it. -/
def Dynamics.resume [DecidableEq σ] (d : Dynamics Id σ ι) (budget depth : Nat)
    (rest : List Nat) (search : Search σ) : Explore Id σ (Option (Exploration σ)) := do
  let search ← d.expand .unbounded rest search
  if search.full then return some ⟨search.system, .stateLimit, depth⟩
  else d.levels .unbounded budget (depth + 1) search.fresh search.system

/-- A search and a queue have both ended, with the same failure or with the same findings. -/
def EndsLike (x : Explore Id σ (Option (Exploration σ))) (y : Eval Id (Option (Queue σ))) : Prop :=
  Tracks (fun err e => err = .eval e)
    (fun found? q? => ∃ found q, found? = some found ∧ q? = some q ∧ q.Shows found.system) x y

theorem EndsLike.run_ne_none {x : Explore Id σ (Option (Exploration σ))}
    {y : Eval Id (Option (Queue σ))} (h : EndsLike x y) : y.run ≠ .ok none := by
  intro hnone
  cases h with
  | error _ hy _ =>
      rw [hnone] at hy
      cases hy
  | ok _ hy hboth =>
      rcases hboth with ⟨found, q, -, rfl, -⟩
      rw [hnone] at hy
      cases hy

theorem map_eq_ok_none_iff {ε α β : Type} {x : Except ε (Option α)} {f : α → β} :
    Except.map (Option.map f) x = .ok none ↔ x = .ok none := by
  rcases x with e | _ | a <;> simp [Except.map]

namespace Dynamics

variable [DecidableEq σ] {d : Dynamics Id σ ι}

/-- At the end of a level the search turns to the next one. -/
theorem resume_nil {search : Search σ} (hfull : search.full = false) (budget depth : Nat) :
    d.resume budget depth [] search =
      d.levels .unbounded budget (depth + 1) search.fresh search.system := by
  rw [resume, expand, pure_bind, if_neg (by rw [hfull]; exact Bool.false_ne_true)]

theorem levels_succ_eq_resume {depth : Nat} {frontier : List Nat} (hne : frontier ≠ [])
    (budget : Nat) (system : TransitionSystem σ String String) :
    d.levels .unbounded (budget + 1) depth frontier system =
      d.resume budget depth frontier ⟨system, [], false⟩ := by
  rw [levels_succ d hne rfl]
  rfl

namespace Passes

variable {asked : List σ} {depth id : Nat} {rest : List Nat} {search : Search σ} {q : Queue σ}

/-- One state of a level is one round of the queue: both fail in the same way, or both go on
    and still have found the same. -/
theorem round (h : Passes d .unbounded asked depth (id :: rest) search)
    (hq : q.Shows search.system) :
    (∃ e, (∀ budget, (d.resume budget depth (id :: rest) search).run = .error (.eval e)) ∧
        ∀ rounds, (d.serveFrom (rounds + 1) asked.length q).run = .error e) ∨
      ∃ s search' q', Passes d .unbounded (asked ++ [s]) depth rest search' ∧
        q'.Shows search'.system ∧
        (∀ budget, d.resume budget depth (id :: rest) search =
          d.resume budget depth rest search') ∧
        ∀ rounds, d.serveFrom (rounds + 1) asked.length q =
          d.serveFrom rounds (asked.length + 1) q' := by
  rcases h.counted with ⟨bound, hcount⟩
  rcases hcount.exists_state? with ⟨s, hs⟩
  rcases hcount.next_eq with ⟨rfl, -, -⟩
  have hget : q.states.get? asked.length = some s := by
    rw [← hq.state?_eq]
    exact hs
  -- The search looks the state up, and then both do the same with its inputs.
  have hexpand : d.expand .unbounded (asked.length :: rest) search =
      (Explore.ask (d.inputs s) >>= fun inputs =>
        d.follow .unbounded asked.length s inputs search) >>= fun search' =>
          if search'.full then pure search' else d.expand .unbounded rest search' := by
    rw [expand, TransitionSystem.stateAt_of_state? hs, Explore.enter_ok, pure_bind, bind_assoc]
  have hserve : Tracks (fun err e => err = .eval e)
      (fun search' q' => search'.full = false ∧ q'.Shows search'.system)
      (Explore.ask (d.inputs s) >>= fun inputs =>
        d.follow .unbounded asked.length s inputs search) (d.serve asked.length s q) := by
    refine (Explore.ask_tracks_self (d.inputs s)).bind ?_
    intro inputs inputs' _ hinputs
    rw [← hinputs]
    exact follow_tracks_serveInputs inputs hq hs h.full_eq
  cases hserve with
  | @error err e hx hy he =>
      cases he
      refine Or.inl ⟨e, ?_, ?_⟩
      · intro budget
        rw [resume, hexpand]
        exact run_bind_of_error (run_bind_of_error hx)
      · intro rounds
        rw [serveFrom_succ hget]
        exact run_bind_of_error hy
  | @ok search' q' hx hy hboth =>
      rcases hboth with ⟨hfull, hq'⟩
      rcases run_bind_eq_ok_iff.mp hx with ⟨inputs, hinputs, hfollow⟩
      rw [Explore.run_ask_eq_ok_iff] at hinputs
      refine Or.inr ⟨s, search', q', h.state rfl hs hinputs hfollow hfull, hq', ?_, ?_⟩
      · intro budget
        rw [resume, resume, hexpand, ExceptT.ext (run_bind_of_ok hx),
          if_neg (by rw [hfull]; exact Bool.false_ne_true)]
      · intro rounds
        rw [serveFrom_succ hget]
        exact ExceptT.ext (run_bind_of_ok hy)

/-- When nothing is left, all states have been asked about. -/
theorem size_le_length (h : Passes d .unbounded asked depth [] search)
    (hfresh : search.fresh = []) : search.system.states.size ≤ asked.length := by
  rcases h.counted with ⟨bound, hcount⟩
  have hnone := hcount.fresh_eq
  rw [hfresh, eq_comm, List.range'_eq_nil_iff] at hnone
  have hall := hcount.asked_eq
  omega

/-- A search with no states left has ended, and so has the queue. -/
theorem endsLike_of_nil (h : Passes d .unbounded asked depth [] search)
    (hfresh : search.fresh = []) (hq : q.Shows search.system) (budget depth' rounds : Nat) :
    EndsLike (d.levels .unbounded budget depth' [] search.system)
      (d.serveFrom rounds asked.length q) := by
  rw [levels_nil, serveFrom_of_size_le (hq.states_eq ▸ h.size_le_length hfresh)]
  exact .ok rfl rfl ⟨_, q, rfl, rfl, hq⟩

/-- Between two levels there is nothing to do for a queue. Either the next level is empty and
    both have ended, or the search turns to it and has one level less to go. -/
theorem exists_turn (h : Passes d .unbounded asked depth [] search) (hq : q.Shows search.system) :
    (∀ budget rounds, EndsLike (d.resume budget depth [] search)
        (d.serveFrom rounds asked.length q)) ∨
      ∃ next rest', Passes d .unbounded asked (depth + 1) (next :: rest')
          ⟨search.system, [], false⟩ ∧
        d.resume 0 depth [] search = pure none ∧
        ∀ budget, d.resume (budget + 1) depth [] search =
          d.resume budget (depth + 1) (next :: rest') ⟨search.system, [], false⟩ := by
  cases hfresh : search.fresh with
  | nil =>
      refine Or.inl ?_
      intro budget rounds
      rw [resume_nil h.full_eq, hfresh]
      exact h.endsLike_of_nil hfresh hq budget (depth + 1) rounds
  | cons next rest' =>
      have hne : search.fresh ≠ [] := by
        rw [hfresh]
        exact List.cons_ne_nil next rest'
      refine Or.inr ⟨next, rest', hfresh ▸ h.level hne, ?_, ?_⟩
      · rw [resume_nil h.full_eq, levels_zero d hne rfl]
      · intro budget
        rw [resume_nil h.full_eq, levels_succ_eq_resume hne, hfresh]

/-- If the search ends, then so does the queue, and in the same way. The induction is on the
    budget, and for each level on the states that are left of it. -/
theorem exists_rounds {budget : Nat} (h : Passes d .unbounded asked depth rest search)
    (hq : q.Shows search.system) (hended : (d.resume budget depth rest search).run ≠ .ok none) :
    ∃ rounds, EndsLike (d.resume budget depth rest search)
      (d.serveFrom rounds asked.length q) := by
  induction budget using Nat.strong_induction_on generalizing asked depth rest search q with
  | _ budget ih =>
    induction rest generalizing asked search q with
    | nil =>
        rcases h.exists_turn hq with hends | ⟨next, rest', hnext, hnone, hturn⟩
        · exact ⟨0, hends budget 0⟩
        · cases budget with
          | zero =>
              rw [hnone] at hended
              exact absurd rfl hended
          | succ less =>
              rw [hturn] at hended ⊢
              exact ih less (Nat.lt_succ_self less) hnext hq hended
    | cons id rest ihrest =>
        rcases h.round hq with ⟨e, hsearch, hqueue⟩ | ⟨s, search', q', hnext, hq', hsearch, hqueue⟩
        · exact ⟨1, .error (hsearch budget) (hqueue 0) rfl⟩
        · rw [hsearch] at hended ⊢
          rcases ihrest hnext hq' hended with ⟨rounds, hrounds⟩
          rw [List.length_append] at hrounds
          refine ⟨rounds + 1, ?_⟩
          rw [hqueue]
          exact hrounds

/-- For a search that has something left of its level, the queue has a state to serve. -/
theorem length_lt_size (h : Passes d .unbounded asked depth (id :: rest) search) :
    asked.length < search.system.states.size := by
  rcases h.counted with ⟨bound, hcount⟩
  have hle := hcount.bound_le
  have hlt := hcount.next_eq.2.1
  omega

/-- It is enough to look at searches that have something left of their level. -/
theorem exists_budget_of_left {rounds : Nat} (h : Passes d .unbounded asked depth rest search)
    (hq : q.Shows search.system)
    (hleft : ∀ {depth id rest search}, Passes d .unbounded asked depth (id :: rest) search →
      q.Shows search.system → ∃ budget, EndsLike (d.resume budget depth (id :: rest) search)
        (d.serveFrom rounds asked.length q)) :
    ∃ budget, EndsLike (d.resume budget depth rest search)
      (d.serveFrom rounds asked.length q) := by
  cases rest with
  | cons id rest => exact hleft h hq
  | nil =>
      rcases h.exists_turn hq with hends | ⟨next, rest', hnext, -, hturn⟩
      · exact ⟨0, hends 0 rounds⟩
      · rcases hleft hnext hq with ⟨budget, hbudget⟩
        exact ⟨budget + 1, hturn budget ▸ hbudget⟩

/-- If the queue ends, then so does the search, and in the same way. The induction is on the
    rounds; before each of them the search may have to turn to the next level. -/
theorem exists_budget {rounds : Nat} (h : Passes d .unbounded asked depth rest search)
    (hq : q.Shows search.system) (hended : (d.serveFrom rounds asked.length q).run ≠ .ok none) :
    ∃ budget, EndsLike (d.resume budget depth rest search)
      (d.serveFrom rounds asked.length q) := by
  induction rounds generalizing asked depth rest search q with
  | zero =>
      refine h.exists_budget_of_left hq ?_
      intro depth id rest search hpass hshows
      have hlt := hpass.length_lt_size
      rw [hshows.states_eq] at hlt
      rw [serveFrom_zero_of_lt hlt] at hended
      exact absurd rfl hended
  | succ rounds ih =>
      refine h.exists_budget_of_left hq ?_
      intro depth id rest search hpass hshows
      rcases hpass.round hshows with ⟨e, hsearch, hqueue⟩ |
        ⟨s, search', q', hnext, hq', hsearch, hqueue⟩
      · exact ⟨0, .error (hsearch 0) (hqueue rounds) rfl⟩
      · have hlength : (asked ++ [s]).length = asked.length + 1 := List.length_append
        rw [hqueue, ← hlength] at hended ⊢
        rcases ih hnext hq' hended with ⟨budget, hbudget⟩
        exact ⟨budget, hsearch budget ▸ hbudget⟩

/-- The same at the beginning of a level, where the budget has not been looked at yet. -/
theorem exists_rounds_of_levels {budget : Nat} {frontier : List Nat}
    {system : TransitionSystem σ String String}
    (h : Passes d .unbounded asked depth frontier ⟨system, [], false⟩) (hq : q.Shows system)
    (hended : (d.levels .unbounded budget depth frontier system).run ≠ .ok none) :
    ∃ rounds, EndsLike (d.levels .unbounded budget depth frontier system)
      (d.serveFrom rounds asked.length q) := by
  cases frontier with
  | nil => exact ⟨0, h.endsLike_of_nil rfl hq budget depth 0⟩
  | cons id rest =>
      have hne : id :: rest ≠ [] := List.cons_ne_nil id rest
      cases budget with
      | zero =>
          rw [levels_zero d hne rfl] at hended
          exact absurd rfl hended
      | succ less =>
          rw [levels_succ_eq_resume hne] at hended ⊢
          exact h.exists_rounds hq hended

theorem exists_budget_of_serveFrom {rounds : Nat} {frontier : List Nat}
    {system : TransitionSystem σ String String}
    (h : Passes d .unbounded asked depth frontier ⟨system, [], false⟩) (hq : q.Shows system)
    (hended : (d.serveFrom rounds asked.length q).run ≠ .ok none) :
    ∃ budget, EndsLike (d.levels .unbounded budget depth frontier system)
      (d.serveFrom rounds asked.length q) := by
  cases frontier with
  | nil => exact ⟨0, h.endsLike_of_nil rfl hq 0 depth rounds⟩
  | cons id rest =>
      rcases h.exists_budget hq hended with ⟨budget, hbudget⟩
      refine ⟨budget + 1, ?_⟩
      rw [levels_succ_eq_resume (List.cons_ne_nil id rest)]
      exact hbudget

end Passes

end Dynamics

/-- Initial states are marked by their numbers, in the order in which they are listed. -/
theorem Entered.initial_enterInitial [DecidableEq σ] {system : TransitionSystem σ String String}
    (h : Entered system) (starts : List σ) :
    ∃ system' frontier, Dynamics.enterInitial starts system = .ok (system', frontier) ∧
      system.states.toList <+: system'.states.toList ∧
      system'.initial = (starts.map fun s => system'.states.toList.idxOf s).foldl
        OrderedSet.insert system.initial := by
  induction starts generalizing system with
  | nil => exact ⟨system, [], rfl, List.prefix_refl _, rfl⟩
  | cons s rest ih =>
      by_cases hs : s ∈ system.states
      · rcases TransitionSystem.mem_states_iff.mp hs with ⟨id, hid⟩
        rcases ih h with ⟨system', frontier, hrun, hprefix, hinitial⟩
        refine ⟨system', frontier, ?_, hprefix, ?_⟩
        · rw [Dynamics.enterInitial, TransitionSystem.insertState_of_mem hid]
          simp only [h.after_markInitial hid, hrun, bind, Except.bind]
          rfl
        · -- The state is marked already.
          have hmark : id ∈ system.initial :=
            (h.mem_initial_iff id).mpr (TransitionSystem.lt_size_of_state? hid)
          rw [hinitial, List.map_cons, List.foldl_cons,
            OrderedSet.idxOf_eq_of_prefix hprefix hid, OrderedSet.insert_of_mem hmark]
      · rcases ih (h.withInitial hs) with ⟨system', frontier, hrun, hprefix, hinitial⟩
        have hnew := TransitionSystem.state?_withState_size hs
        have hmark : (system.withState s).after (Change.markInitial system.states.size) =
            .ok (system.withInitial s) := TransitionSystem.after_markInitial hnew
        refine ⟨system', system.states.size :: frontier, ?_, ?_, ?_⟩
        · rw [Dynamics.enterInitial, TransitionSystem.insertState_of_not_mem hs]
          simp only [hmark, hrun, bind, Except.bind]
          rfl
        · rw [TransitionSystem.states_withInitial] at hprefix
          exact (system.states.prefix_insert s).trans hprefix
        · rw [hinitial, List.map_cons, List.foldl_cons,
            OrderedSet.idxOf_eq_of_prefix hprefix hnew]
          rfl

namespace Dynamics

variable [DecidableEq σ] {d : Dynamics Id σ ι}

/-- A queue that shows the end of a search has found the same. -/
theorem labelled_eq_system {q : Queue σ} {starts : List σ} {frontier : List Nat}
    {system grown : TransitionSystem σ String String}
    (henter : enterInitial starts .empty = .ok (system, frontier))
    (hgrows : system.Grows .unbounded grown) (hq : q.Shows grown) :
    d.labelled grown = q.system d starts := by
  rcases Entered.empty.initial_enterInitial starts with ⟨system', frontier', henter', -, hinitial⟩
  rw [henter, Except.ok.injEq, Prod.mk.injEq] at henter'
  rcases henter' with ⟨rfl, rfl⟩
  have hnumbers : (starts.map fun s => system.states.toList.idxOf s) =
      starts.map fun s => q.states.toList.idxOf s := by
    refine List.map_congr_left ?_
    intro s hs
    have hmem : s ∈ system.states := by
      rw [(Entered.of_enterInitial henter).2.2, OrderedSet.ofList, OrderedSet.mem_foldl_insert]
      exact Or.inr hs
    rcases OrderedSet.mem_iff_exists_get?.mp hmem with ⟨id, hid⟩
    rw [OrderedSet.idxOf_eq_of_get? hid, ← hq.states_eq,
      OrderedSet.idxOf_eq_of_prefix hgrows.states_prefix hid]
  have hinitial' : grown.initial = .ofList (starts.map fun s => q.states.toList.idxOf s) := by
    rw [hgrows.initial_eq, hinitial, hnumbers]
    rfl
  refine TransitionSystem.eq_of_states_eq hq.states_eq hinitial' hq.actions_eq
    hq.transitions_eq ?_ ?_
  · simp only [labelled, Queue.system, hq.states_eq]
  · simp only [labelled, Queue.system, hq.states_eq]

theorem run_queue {starts : List σ} (hstarts : d.initial.run = .ok starts) (rounds : Nat) :
    (d.queue rounds).run = Except.map (Option.map (·.system d starts))
      (d.serveFrom rounds 0 ⟨.ofList starts, []⟩).run := by
  rw [queue, run_bind_of_ok hstarts]
  cases hserved : (d.serveFrom rounds 0 ⟨.ofList starts, []⟩).run with
  | error e => exact run_bind_of_error hserved
  | ok served => exact run_bind_of_ok hserved

/-- Where runs start, a search and a queue are in the same position. What they do from there
    tells what an exploration and the plain algorithm find. -/
theorem exists_start {starts : List σ} (hstarts : d.initial.run = .ok starts) :
    ∃ (frontier : List Nat) (system : TransitionSystem σ String String),
      Passes d .unbounded [] 0 frontier ⟨system, [], false⟩ ∧
      (⟨.ofList starts, []⟩ : Queue σ).Shows system ∧
      (∀ budget, (d.explore .unbounded budget).run =
        Except.map (Option.map fun ended => { ended with system := d.labelled ended.system })
          (d.levels .unbounded budget 0 frontier system).run) ∧
      ∀ budget rounds, EndsLike (d.levels .unbounded budget 0 frontier system)
          (d.serveFrom rounds 0 ⟨.ofList starts, []⟩) →
        Except.map (Option.map (·.system)) (d.explore .unbounded budget).run =
          Except.mapError .eval (d.queue rounds).run := by
  rcases run_explore_eq_map hstarts with ⟨system, henter, hrun⟩
  rcases Entered.of_enterInitial henter with ⟨hentered, -, hstates⟩
  refine ⟨_, system, .start hstarts henter,
    ⟨hstates, hentered.actions_eq, hentered.transitions_eq⟩, hrun .unbounded, ?_⟩
  intro budget rounds hends
  rw [hrun, run_queue hstarts]
  cases hends with
  | error hx hy he =>
      rw [hx, hy, he]
      rfl
  | ok hx hy hboth =>
      rcases hboth with ⟨ended, q, rfl, rfl, hq⟩
      rw [hx, hy]
      simp only [Except.map, Except.mapError, Option.map_some,
        labelled_eq_system henter (levels_grows hx) hq]

/-- If it cannot be told where runs start, then neither of the two finds anything. -/
theorem run_eq_error_of_initial {e : EvalError} (h : d.initial.run = .error e) :
    (∀ budget, (d.explore .unbounded budget).run = .error (.eval e)) ∧
      ∀ rounds, (d.queue rounds).run = .error e := by
  have hask : (Explore.ask d.initial : Explore Id σ (List σ)).run = .error (.eval e) :=
    Explore.run_ask_eq_error_iff.mpr ⟨e, rfl, h⟩
  exact ⟨fun _ => run_bind_of_error hask, fun _ => run_bind_of_error h⟩

/-- An exploration without limits ends exactly if the plain algorithm does. -/
theorem exists_explore_iff_exists_queue :
    (∃ budget, (d.explore .unbounded budget).run ≠ .ok none) ↔
      ∃ rounds, (d.queue rounds).run ≠ .ok none := by
  cases hstarts : d.initial.run with
  | error e =>
      rcases run_eq_error_of_initial hstarts with ⟨hexplore, hqueue⟩
      refine ⟨fun _ => ⟨0, ?_⟩, fun _ => ⟨0, ?_⟩⟩
      · rw [hqueue]
        intro h
        cases h
      · rw [hexplore]
        intro h
        cases h
  | ok starts =>
      rcases exists_start hstarts with ⟨frontier, system, hpass, hq, hrun, hsame⟩
      constructor
      · intro h
        rcases h with ⟨budget, hended⟩
        have hlevels := hended
        rw [hrun, Ne, map_eq_ok_none_iff] at hlevels
        rcases hpass.exists_rounds_of_levels hq hlevels with ⟨rounds, hends⟩
        refine ⟨rounds, ?_⟩
        intro hnone
        have hresult := hsame budget rounds hends
        rw [hnone] at hresult
        exact hended (map_eq_ok_none_iff.mp hresult)
      · intro h
        rcases h with ⟨rounds, hended⟩
        have hserved := hended
        rw [run_queue hstarts, Ne, map_eq_ok_none_iff] at hserved
        rcases hpass.exists_budget_of_serveFrom hq hserved with ⟨budget, hends⟩
        refine ⟨budget, ?_⟩
        intro hnone
        have hresult := hsame budget rounds hends
        rw [hnone] at hresult
        exact hended (mapError_eq_ok_iff.mp hresult.symm)

/-- What an exploration without limits finds is what the plain algorithm finds. -/
theorem explore_eq_queue {budget rounds : Nat}
    (hexplore : (d.explore .unbounded budget).run ≠ .ok none)
    (hqueue : (d.queue rounds).run ≠ .ok none) :
    Except.map (Option.map (·.system)) (d.explore .unbounded budget).run =
      Except.mapError .eval (d.queue rounds).run := by
  cases hstarts : d.initial.run with
  | error e =>
      rcases run_eq_error_of_initial hstarts with ⟨hexplore, hqueue⟩
      rw [hexplore, hqueue]
      rfl
  | ok starts =>
      rcases exists_start hstarts with ⟨frontier, system, hpass, hq, hrun, hsame⟩
      rw [hrun, Ne, map_eq_ok_none_iff] at hexplore
      rw [run_queue hstarts, Ne, map_eq_ok_none_iff] at hqueue
      rcases hpass.exists_rounds_of_levels hq hexplore with ⟨enough, hends⟩
      -- The queue has ended with both numbers of rounds, so these do not matter.
      have hserved := serveFrom_eq_of_ended hends.run_ne_none hqueue
      rw [hsame budget enough hends, run_queue hstarts, run_queue hstarts]
      exact congrArg (fun served => Except.mapError _ (Except.map _ served)) hserved

end Dynamics

/-- Without limits an exploration ends exactly if the plain algorithm does that serves the
    states of one queue by their numbers, and then both find the same system or fail with the
    same error. Whatever its limits are and however it ends, an exploration asks about the
    states in the order of their numbers, each once, and the numbers do not decrease with the
    distance from the initial states. -/
theorem explore_goes_by_number [DecidableEq σ] (d : Dynamics Id σ ι) :
    ((∃ budget, (d.explore .unbounded budget).run ≠ .ok none) ↔
      ∃ rounds, (d.queue rounds).run ≠ .ok none) ∧
    (∀ budget rounds, (d.explore .unbounded budget).run ≠ .ok none →
      (d.queue rounds).run ≠ .ok none →
      Except.map (Option.map (·.system)) (d.explore .unbounded budget).run =
        Except.mapError .eval (d.queue rounds).run) ∧
    ∀ limits budget, (d.asked limits budget).Nodup ∧
      (∀ starts, d.initial.run = .ok starts →
        d.asked limits budget <+: (d.metFrom starts (d.asked limits budget)).toList ∧
        (d.metFrom starts (d.asked limits budget)).toList.Pairwise d.NoFarther) ∧
      ∀ found, (d.explore limits budget).run = .ok (some found) →
        (d.asked limits budget).map found.system.idOf? =
          (List.range (d.asked limits budget).length).map some ∧
        found.system.states.toList.Pairwise d.NoFarther := by
  refine ⟨Dynamics.exists_explore_iff_exists_queue, fun _ _ => Dynamics.explore_eq_queue, ?_⟩
  intro limits budget
  have hends := Dynamics.ends_of_logged_explore (d.canReturn_logged_explore limits budget)
  rcases hends.asked_begins with ⟨states, hbegins, -, hstates⟩
  refine ⟨states.nodup.sublist hbegins.sublist, ?_, ?_⟩
  · intro starts hstarts
    exact ⟨(hends.numbered hstarts).1, (hends.numbered hstarts).2.1⟩
  · intro found hfound
    rcases Dynamics.explore_stages hfound with ⟨starts, -, -, hstarts, -⟩
    rcases hends.numbered hstarts with ⟨-, hordered, hkept⟩
    rw [hstates found hfound] at hbegins
    exact ⟨TransitionSystem.map_idOf?_of_prefix hbegins,
      hordered.sublist (hkept found hfound).sublist⟩

/-- Two starts, one of them listed twice, with edges to each other, and a state that is met
    again on the next level. -/
def Table.meshed : Dynamics Id String Table.Input :=
  Table.dynamics
    { initial := ["a", "b", "a"]
      edges := [("a", "cross", "b"), ("a", "go", "d"), ("b", "go", "c"), ("b", "back", "a"),
        ("c", "on", "d"), ("d", "on", "e"), ("e", "stay", "e")]
      labels := [("e", ["last"])]
      failsInitially := false
      failingStates := []
      failingActions := [] }

/-- The meshed table is explored in three levels or in five rounds, and with one level the
    exploration asks about the first two states. The brittle table fails in the second level
    and in the third round. -/
theorem meshed_and_brittle_go_by_number :
    (∃ found system, (Table.meshed.explore .unbounded 3).run = .ok (some found) ∧
      (Table.meshed.queue 5).run = .ok (some system) ∧ found.system = system ∧
      system.states.toList = ["a", "b", "d", "c", "e"]) ∧
    (∃ found, (Table.meshed.explore ⟨some 1, none⟩ 3).run = .ok (some found) ∧
      found.outcome = .depthLimit ∧ (Table.meshed.asked ⟨some 1, none⟩ 3).length = 2 ∧
      (Table.meshed.asked ⟨some 1, none⟩ 3).map found.system.idOf? = [some 0, some 1] ∧
      found.system.states.toList.Pairwise Table.meshed.NoFarther) ∧
    (Table.brittle.queue 3).run = .error (.inapplicableEffect "snap") ∧
      Except.map (Option.map (·.system)) (Table.brittle.explore .unbounded 2).run =
        .error (.eval (.inapplicableEffect "snap")) ∧
      Table.brittle.asked .unbounded 2 <+:
        (Table.brittle.metFrom ["a"] (Table.brittle.asked .unbounded 2)).toList := by
  refine ⟨?_, ?_, ?_⟩
  · have hending : Explore.ending? (Table.meshed.explore .unbounded 3) = some (.complete, 3) := by
      decide +kernel
    have hstates : (Except.toOption (Table.meshed.queue 5).run).map (Option.map (·.states.toList)) =
        some (some ["a", "b", "d", "c", "e"]) := by
      decide +kernel
    rcases Explore.exists_of_ending? hending with ⟨found, hrun, -, -⟩
    rcases Option.map_eq_some_iff.mp hstates with ⟨system?, hqueue, hsystem⟩
    rcases Option.map_eq_some_iff.mp hsystem with ⟨system, rfl, hlist⟩
    have hsame := (explore_goes_by_number Table.meshed).2.1 3 5
    rw [hrun, run_eq_ok_of_toOption hqueue] at hsame
    have heq := hsame (by intro h; cases h) (by intro h; cases h)
    cases heq
    exact ⟨found, found.system, hrun, run_eq_ok_of_toOption hqueue, rfl, hlist⟩
  · have hending : Explore.ending? (Table.meshed.explore ⟨some 1, none⟩ 3) =
        some (.depthLimit, 1) := by
      decide +kernel
    have hasked : (Table.meshed.asked ⟨some 1, none⟩ 3).length = 2 := by
      decide +kernel
    rcases Explore.exists_of_ending? hending with ⟨found, hrun, houtcome, -⟩
    rcases ((explore_goes_by_number Table.meshed).2.2 ⟨some 1, none⟩ 3).2.2 found hrun with
      ⟨hnumbers, hordered⟩
    rw [hasked] at hnumbers
    exact ⟨found, hrun, houtcome, hasked, hnumbers, hordered⟩
  · have hqueue : (Table.brittle.queue 3).run = .error (.inapplicableEffect "snap") := by
      show @Eq (Except EvalError (Option (TransitionSystem String String String))) _ _
      decide +kernel
    have hfails : (Table.brittle.explore .unbounded 2).run ≠ .ok none := by
      show @Ne (Except (ExplorationError String String String) (Option (Exploration String))) _ _
      decide +kernel
    have hsame := (explore_goes_by_number Table.brittle).2.1 2 3 hfails
    rw [hqueue] at hsame
    exact ⟨hqueue, hsame (by intro h; cases h),
      (((explore_goes_by_number Table.brittle).2.2 .unbounded 2).2.1 ["a"] rfl).1⟩

end Interleaving
