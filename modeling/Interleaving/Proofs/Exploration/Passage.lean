import Interleaving.Proofs.Exploration.Growth

/-!
# The Positions a Search Passes

A search over a state space with effects has many runs, and what they have in common is
said about the positions they can pass. A position is what lies between two questions
about states: which states have been asked about so far, which level is being expanded,
which of its states are left, and what has been found. `Passes` lists the positions and
nothing else: the initial states are the first, and from each the search goes on with the
next state of the level, or with the next level.

A run then ends in one of five ways, all of them at a position or one question after
it, and `Ends` says which. The proofs follow the loops of the search from the inside
out; everything else that is said about all runs, here and in later modules, is an
induction over `Passes`.

The first such induction is about numbers. States are asked about in the order of their
numbers, each level is the interval of numbers that came in with the one before, and a
level that is not empty has brought at least one new state. This is `Counted`.

## Main definitions

* `Dynamics.MayFail`: A question about a state can fail.
* `Dynamics.Passes`: The positions a search can pass.
* `Dynamics.Counted`: The numbers of a position.
* `Dynamics.Ends`: The ways a run can end.

## Theorems

* `Dynamics.follow_error`: The inputs of a state fail only by themselves.
* `Dynamics.Passes.counted`: Every position is an interval of numbers.
* `Dynamics.ends_of_logged_expand`, `Dynamics.ends_of_logged_levels`,
  `Dynamics.ends_of_logged_explore`: Every run ends in one of the ways.
-/

namespace Interleaving

open MonadAttach (CanReturn)

namespace Dynamics

/-- Labels are given without asking and without objection. -/
theorem exists_labelStates_eq_ok {m : Type → Type} {σ ι : Type} (d : Dynamics m σ ι)
    (system : TransitionSystem σ String String) :
    ∃ system', d.labelStates system = .ok system' ∧ system'.states = system.states := by
  -- They do not depend on the effects of the state space.
  have hpure : d.labelStates system =
      (⟨pure [], fun _ => pure [], fun s _ => pure s, d.action, d.labels⟩ :
        Dynamics Id σ ι).labelStates system := rfl
  rcases labelStates_eq_ok _ system with ⟨system', hrun, hlabelled⟩
  exact ⟨system', hpure.trans hrun, hlabelled.states_eq⟩

variable {m : Type → Type} [Monad m] {σ ι : Type}

/-- A question about a state can fail: which inputs it offers, or where one of them
    leads. -/
def MayFail [MonadAttach m] (d : Dynamics m σ ι) (s : σ) (e : EvalError) : Prop :=
  CanReturn (d.inputs s).run (.error e) ∨
    ∃ inputs, CanReturn (d.inputs s) inputs ∧
      ∃ input ∈ inputs, CanReturn (d.next s input).run (.error e)

/-- The numbers of a position. The states below `bound` were known when the level began,
    and the first of them are those that were asked about. -/
structure Counted (limits : Limits) (asked : List σ) (depth : Nat) (rest : List Nat)
    (search : Search σ) (bound : Nat) : Prop where
  asked_le : asked.length ≤ bound
  bound_le : bound ≤ search.system.states.size
  rest_eq : rest = List.range' asked.length (bound - asked.length)
  fresh_eq : search.fresh = List.range' bound (search.system.states.size - bound)
  begins : asked <+: search.system.states.toList
  /-- Every level so far has brought a state. -/
  depth_lt : depth < bound ∨ search.system.states.size = 0
  /-- The initial states may be too many, but then none came in after them. -/
  size_le : (0 < depth ∨ bound < search.system.states.size) →
    ∀ n, limits.maxStates = some n → search.system.states.size ≤ n

namespace Counted

variable {limits : Limits} {asked : List σ} {depth bound id : Nat} {rest : List Nat}
  {search : Search σ} {s : σ}

/-- The next state of a level is the first one that was not asked about. -/
theorem next_eq (h : Counted limits asked depth (id :: rest) search bound) :
    id = asked.length ∧ asked.length < bound ∧
      rest = List.range' (asked.length + 1) (bound - (asked.length + 1)) := by
  have hrest := h.rest_eq
  have hlt : asked.length < bound := by
    by_contra hle
    rw [show bound - asked.length = 0 by omega] at hrest
    cases hrest
  rw [show bound - asked.length = (bound - (asked.length + 1)) + 1 by omega,
    List.range'_succ, List.cons.injEq] at hrest
  exact ⟨hrest.1, hlt, hrest.2⟩

theorem exists_state? (h : Counted limits asked depth (id :: rest) search bound) :
    ∃ s, search.system.state? id = some s := by
  have hle := h.bound_le
  rcases h.next_eq with ⟨hid, hlt, -⟩
  exact TransitionSystem.exists_state?_of_lt (by omega)

/-- With the next state, what was asked about is still a beginning of the states. -/
theorem begins_append (h : Counted limits asked depth (id :: rest) search bound)
    (hs : search.system.state? id = some s) :
    asked ++ [s] <+: search.system.states.toList := by
  rcases h.begins with ⟨more, hmore⟩
  have hget : search.system.states.toList[asked.length]? = some s := by
    rw [← h.next_eq.1]
    exact hs
  rw [← hmore, List.getElem?_append_right (Nat.le_refl _), Nat.sub_self] at hget
  cases more with
  | nil => cases hget
  | cons t more =>
      cases hget
      exact ⟨more, by rw [List.append_assoc, List.singleton_append, hmore]⟩

theorem asked_eq (h : Counted limits asked depth [] search bound) : asked.length = bound := by
  have hle := h.asked_le
  have hnil := List.range'_eq_nil_iff.mp h.rest_eq.symm
  omega

theorem lt_size (h : Counted limits asked depth rest search bound) (hne : search.fresh ≠ []) :
    bound < search.system.states.size := by
  rw [h.fresh_eq, Ne, List.range'_eq_nil_iff] at hne
  omega

/-- After its last state a level is followed by what has come in with it. -/
theorem level (h : Counted limits asked depth [] search bound) (hne : search.fresh ≠ []) :
    Counted limits asked (depth + 1) search.fresh ⟨search.system, [], false⟩
      search.system.states.size := by
  have hasked := h.asked_eq
  have hlt := h.lt_size hne
  have hdepth := h.depth_lt
  exact
    { asked_le := by omega
      bound_le := Nat.le_refl _
      rest_eq := by rw [h.fresh_eq, hasked]
      fresh_eq := by rw [Nat.sub_self, List.range'_zero]
      begins := h.begins
      depth_lt := Or.inl (by omega)
      size_le := fun _ => h.size_le (Or.inr hlt) }

variable [DecidableEq σ]

/-- The initial states are the first level. -/
theorem start {starts : List σ} {system : TransitionSystem σ String String} {frontier : List Nat}
    (henter : enterInitial starts .empty = .ok (system, frontier)) :
    Counted limits [] 0 frontier ⟨system, [], false⟩ system.states.size := by
  rcases Entered.of_enterInitial henter with ⟨-, rfl, -⟩
  exact
    { asked_le := Nat.zero_le _
      bound_le := Nat.le_refl _
      rest_eq := rfl
      fresh_eq := by rw [Nat.sub_self, List.range'_zero]
      begins := List.nil_prefix
      depth_lt := (Nat.eq_zero_or_pos _).symm
      size_le := fun hmore => by
        simp only [Nat.lt_irrefl, or_self] at hmore }

/-- Once the inputs of the next state are followed, the one after it is up. -/
theorem state {p : σ → Prop} {search' : Search σ}
    (h : Counted limits asked depth (id :: rest) search bound)
    (hs : search.system.state? id = some s) (hext : search.Extends limits p search') :
    Counted limits (asked ++ [s]) depth rest search' bound := by
  have hbound := h.bound_le
  have hsize := hext.grows.size_le
  rcases h.next_eq with ⟨-, hlt, hrest⟩
  have hlength : (asked ++ [s]).length = asked.length + 1 := List.length_append
  refine
    { asked_le := by omega
      bound_le := by omega
      rest_eq := by rw [hlength, hrest]
      fresh_eq := ?_
      begins := (h.begins_append hs).trans hext.grows.states_prefix
      depth_lt := ?_
      size_le := ?_ }
  · -- What has come in follows what was waiting already.
    have hcount : search'.system.states.size - bound =
        (search.system.states.size - bound) +
          (search'.system.states.size - search.system.states.size) := by
      omega
    rw [hext.fresh_eq, h.fresh_eq, hcount, ← List.range'_append_1]
    congr 2
    omega
  · have hdepth := h.depth_lt
    omega
  · intro hmore n hn
    have hmax := hext.grows.size_le_max hn
    -- Either the limit held before, or all states were initial and the first has just come in.
    by_cases hgrown : 0 < depth ∨ bound < search.system.states.size
    · have hold := h.size_le hgrown n hn
      omega
    · omega

end Counted

variable [DecidableEq σ]

/-- The positions a search can pass. The states in `asked` have been asked about, in this
    order, and those in `rest` are what is left of the level at `depth`. -/
inductive Passes [MonadAttach m] (d : Dynamics m σ ι) (limits : Limits) :
    (asked : List σ) → (depth : Nat) → (rest : List Nat) → Search σ → Prop where
  | start {starts : List σ} {system : TransitionSystem σ String String} {frontier : List Nat}
      (hstarts : CanReturn d.initial starts)
      (henter : enterInitial starts .empty = .ok (system, frontier)) :
      Passes d limits [] 0 frontier ⟨system, [], false⟩
  | state {asked : List σ} {depth id : Nat} {rest : List Nat} {search search' : Search σ} {s : σ}
      {inputs : List ι} (h : Passes d limits asked depth (id :: rest) search)
      (hdepth : limits.depthReached depth = false) (hs : search.system.state? id = some s)
      (hinputs : CanReturn (d.inputs s) inputs)
      (hfollow : CanReturn (d.follow limits id s inputs search) search')
      (hfull : search'.full = false) : Passes d limits (asked ++ [s]) depth rest search'
  | level {asked : List σ} {depth : Nat} {search : Search σ}
      (h : Passes d limits asked depth [] search) (hne : search.fresh ≠ []) :
      Passes d limits asked (depth + 1) search.fresh ⟨search.system, [], false⟩

/-- The ways a run can end: what comes out of it, and the states it has asked about. -/
inductive Ends [MonadAttach m] (d : Dynamics m σ ι) (limits : Limits) (budget : Nat) :
    Except (ExplorationError σ String String) (Option (Exploration σ)) → List σ → Prop where
  /-- There is no telling where runs start. -/
  | unstarted {e : EvalError} (h : CanReturn d.initial.run (.error e)) :
      Ends d limits budget (.error (.eval e)) []
  /-- A question about a state has failed. -/
  | failed {asked : List σ} {depth id : Nat} {rest : List Nat} {search : Search σ} {s : σ}
      {e : EvalError} (h : Passes d limits asked depth (id :: rest) search)
      (hdepth : limits.depthReached depth = false) (hs : search.system.state? id = some s)
      (hfails : d.MayFail s e) : Ends d limits budget (.error (.eval e)) (asked ++ [s])
  /-- The budget does not allow another level. -/
  | spent {asked : List σ} {frontier : List Nat} {search : Search σ}
      (h : Passes d limits asked budget frontier search) (hne : frontier ≠ [])
      (hdepth : limits.depthReached budget = false) : Ends d limits budget (.ok none) asked
  /-- Nothing is left, or nothing may be expanded any more. -/
  | settled {asked : List σ} {depth : Nat} {rest : List Nat} {search : Search σ}
      {found : Exploration σ} (h : Passes d limits asked depth rest search)
      (hstates : found.system.states = search.system.states) :
      Ends d limits budget (.ok (some found)) asked
  /-- A state was met that may not be kept. -/
  | filled {asked : List σ} {depth id : Nat} {rest : List Nat} {search search' : Search σ} {s : σ}
      {inputs : List ι} {found : Exploration σ}
      (h : Passes d limits asked depth (id :: rest) search)
      (hs : search.system.state? id = some s) (hinputs : CanReturn (d.inputs s) inputs)
      (hfollow : CanReturn (d.follow limits id s inputs search) search')
      (hstates : found.system.states = search'.system.states) :
      Ends d limits budget (.ok (some found)) (asked ++ [s])

variable [LawfulMonad m] [MonadAttach m] [LawfulMonadAttach m] {d : Dynamics m σ ι}
  {limits : Limits}

/-- The inputs of a state fail only by themselves: the steps are recorded without
    objection. -/
theorem follow_error {source : Nat} {s : σ} {inputs : List ι} {search : Search σ}
    {err : ExplorationError σ String String} (hs : search.system.state? source = some s)
    (h : CanReturn (d.follow limits source s inputs search).run (.error err)) :
    ∃ e, err = .eval e ∧ ∃ input ∈ inputs, CanReturn (d.next s input).run (.error e) := by
  induction inputs generalizing search with
  | nil => cases canReturn_run_pure h
  | cons input rest ih =>
      rw [follow] at h
      rcases canReturn_run_bind h with ⟨err', herr, hask⟩ | ⟨target, -, h⟩
      · cases herr
        rcases Explore.canReturn_run_ask hask with ⟨e, herr, hfails⟩ | ⟨a, hok, -⟩
        · cases herr
          exact ⟨e, rfl, input, List.mem_cons_self, hfails⟩
        · cases hok
      · rcases Search.exists_record_eq_ok hs limits (d.action input) target with ⟨mid, hrec⟩
        rw [hrec, Explore.enter_ok, pure_bind] at h
        by_cases hfull : mid.full = true
        · rw [if_pos hfull] at h
          cases canReturn_run_pure h
        · rw [if_neg hfull] at h
          rcases ih ((Search.record_extends hrec).grows.state?_eq_some hs) h with
            ⟨e, rfl, input', hinput', hfails⟩
          exact ⟨e, rfl, input', List.mem_cons_of_mem input hinput', hfails⟩

namespace Passes

variable {asked : List σ} {depth : Nat} {rest : List Nat} {search : Search σ}

omit [LawfulMonad m] [LawfulMonadAttach m] in
theorem full_eq (h : Passes d limits asked depth rest search) : search.full = false := by
  cases h with
  | start _ _ => rfl
  | state _ _ _ _ _ hfull => exact hfull
  | level _ _ => rfl

end Passes

/-- Every position is an interval of numbers. -/
theorem Passes.counted {asked : List σ} {depth : Nat} {rest : List Nat} {search : Search σ}
    (h : Passes d limits asked depth rest search) :
    ∃ bound, Counted limits asked depth rest search bound := by
  induction h with
  | start _ henter => exact ⟨_, .start henter⟩
  | state _ _ hs _ hfollow _ ih =>
      rcases ih with ⟨bound, hcount⟩
      exact ⟨bound, hcount.state hs (follow_extends hfollow)⟩
  | level _ hne ih =>
      rcases ih with ⟨bound, hcount⟩
      exact ⟨_, hcount.level hne⟩

/-- The expansion of a level goes through, or the run ends in it. The induction is on
    the states that are left. -/
theorem ends_of_logged_expand {asked asked' : List σ} {depth : Nat} {frontier : List Nat}
    {search : Search σ} {r : Except (ExplorationError σ String String) (Search σ)}
    (h : Passes d limits asked depth frontier search)
    (hdepth : limits.depthReached depth = false)
    (hrun : CanReturn ((d.logged.expand limits frontier search).run.run asked) (r, asked')) :
    (∃ search', r = .ok search' ∧ search'.full = false ∧
        Passes d limits asked' depth [] search') ∨
      (∃ search', r = .ok search' ∧ search'.full = true ∧
        ∀ budget found, found.system.states = search'.system.states →
          Ends d limits budget (.ok (some found)) asked') ∨
      ∃ err, r = .error err ∧ ∀ budget, Ends d limits budget (.error err) asked' := by
  induction frontier generalizing asked search with
  | nil =>
      rw [expand] at hrun
      rcases canReturn_run_pure_log hrun with ⟨rfl, rfl⟩
      exact Or.inl ⟨search, rfl, h.full_eq, h⟩
  | cons id rest ih =>
      rcases h.counted with ⟨bound, hcount⟩
      rcases hcount.exists_state? with ⟨s, hs⟩
      rw [expand, TransitionSystem.stateAt_of_state? hs, Explore.enter_ok, pure_bind] at hrun
      rcases canReturn_run_bind_log hrun with ⟨err, rfl, hask⟩ | ⟨inputs, log, hask, hrun⟩
      · -- The state does not tell its inputs.
        rcases Explore.canReturn_run_ask_noting hask with ⟨rfl, ⟨e, herr, hfails⟩ | ⟨_, hok, -⟩⟩
        · cases herr
          exact Or.inr (Or.inr ⟨_, rfl, fun budget => .failed h hdepth hs (Or.inl hfails)⟩)
        · cases hok
      rcases Explore.canReturn_run_ask_noting hask with ⟨rfl, ⟨_, herr, -⟩ | ⟨_, hok, hinputs⟩⟩
      · cases herr
      cases hok
      rcases canReturn_run_bind_log hrun with ⟨err, rfl, hfollow⟩ | ⟨mid, log, hfollow, hrun⟩
      · -- One of its inputs does not lead anywhere.
        rcases (d.quiet_logged_follow limits id s inputs search).canReturn hfollow with
          ⟨rfl, hfollow'⟩
        rcases follow_error hs hfollow' with ⟨e, rfl, input, hinput, hfails⟩
        exact Or.inr (Or.inr ⟨_, rfl, fun budget =>
          .failed h hdepth hs (Or.inr ⟨inputs, hinputs, input, hinput, hfails⟩)⟩)
      rcases (d.quiet_logged_follow limits id s inputs search).canReturn hfollow with
        ⟨rfl, hfollow'⟩
      by_cases hfull : mid.full = true
      · rw [if_pos hfull] at hrun
        rcases canReturn_run_pure_log hrun with ⟨rfl, rfl⟩
        exact Or.inr (Or.inl ⟨mid, rfl, hfull, fun budget found hstates =>
          .filled h hs hinputs hfollow' hstates⟩)
      · rw [if_neg hfull] at hrun
        exact ih (h.state hdepth hs hinputs hfollow' (Bool.eq_false_iff.mpr hfull)) hrun

/-- Level after level, a run ends in one of the ways. The induction is on the budget. -/
theorem ends_of_logged_levels {asked asked' : List σ} {budget depth total : Nat}
    {frontier : List Nat} {system : TransitionSystem σ String String}
    {r : Except (ExplorationError σ String String) (Option (Exploration σ))}
    (h : Passes d limits asked depth frontier ⟨system, [], false⟩)
    (htotal : depth + budget = total)
    (hrun : CanReturn ((d.logged.levels limits budget depth frontier system).run.run asked)
      (r, asked')) : Ends d limits total r asked' := by
  fun_induction d.levels limits budget depth frontier system generalizing asked with
  | case1 budget depth system =>
      rw [levels_nil] at hrun
      rcases canReturn_run_pure_log hrun with ⟨rfl, rfl⟩
      exact .settled h rfl
  | case2 budget depth frontier system hne hdepth =>
      rw [levels_of_depthReached _ hne hdepth] at hrun
      rcases canReturn_run_pure_log hrun with ⟨rfl, rfl⟩
      exact .settled h rfl
  | case3 depth frontier system hne hdepth =>
      rw [levels_zero _ hne (Bool.eq_false_iff.mpr hdepth)] at hrun
      rcases canReturn_run_pure_log hrun with ⟨rfl, rfl⟩
      cases htotal
      exact .spent h hne (Bool.eq_false_iff.mpr hdepth)
  | case4 depth frontier system hne hdepth budget ih =>
      have hlimit := Bool.eq_false_iff.mpr hdepth
      rw [levels_succ _ hne hlimit] at hrun
      rcases canReturn_run_bind_log hrun with ⟨err, rfl, hexpand⟩ | ⟨search, log, hexpand, hrest⟩
      · rcases ends_of_logged_expand h hlimit hexpand with
          ⟨_, hok, -⟩ | ⟨_, hok, -⟩ | ⟨err', herr, hends⟩
        · cases hok
        · cases hok
        · cases herr
          exact hends total
      · rcases ends_of_logged_expand h hlimit hexpand with
          ⟨_, hok, hfull, hpass⟩ | ⟨_, hok, hfull, hends⟩ | ⟨err', herr, -⟩
        · cases hok
          rw [if_neg (by rw [hfull]; exact Bool.false_ne_true)] at hrest
          by_cases hfresh : search.fresh = []
          · -- The level brought nothing new.
            rw [hfresh, levels_nil] at hrest
            rcases canReturn_run_pure_log hrest with ⟨rfl, rfl⟩
            exact .settled hpass rfl
          · exact ih search (hpass.level hfresh) (by omega) hrest
        · cases hok
          rw [if_pos hfull] at hrest
          rcases canReturn_run_pure_log hrest with ⟨rfl, rfl⟩
          exact hends total _ rfl
        · cases herr

omit [LawfulMonad m] [LawfulMonadAttach m] in
/-- How a run ends does not depend on the labels. -/
theorem Ends.congr_states {asked : List σ} {budget : Nat} {found found' : Exploration σ}
    (h : Ends d limits budget (.ok (some found)) asked)
    (hstates : found'.system.states = found.system.states) :
    Ends d limits budget (.ok (some found')) asked := by
  cases h with
  | settled h hsame => exact .settled h (hstates.trans hsame)
  | filled h hs hinputs hfollow hsame =>
      exact .filled h hs hinputs hfollow (hstates.trans hsame)

/-- Every run ends in one of the ways. -/
theorem ends_of_logged_explore {asked : List σ} {budget : Nat}
    {r : Except (ExplorationError σ String String) (Option (Exploration σ))}
    (hrun : CanReturn ((d.logged.explore limits budget).run.run []) (r, asked)) :
    Ends d limits budget r asked := by
  rw [explore] at hrun
  rcases canReturn_run_bind_log hrun with ⟨err, rfl, hask⟩ | ⟨starts, log, hask, hrun⟩
  · rcases Explore.canReturn_run_ask_noting hask with ⟨rfl, ⟨e, herr, hfails⟩ | ⟨_, hok, -⟩⟩
    · cases herr
      exact .unstarted hfails
    · cases hok
  rcases Explore.canReturn_run_ask_noting hask with ⟨rfl, ⟨_, herr, -⟩ | ⟨_, hok, hstarts⟩⟩
  · cases herr
  cases hok
  rcases Entered.empty.enterInitial starts with ⟨system, henter, -, -, -⟩
  rw [henter, Explore.enter_ok, pure_bind] at hrun
  have hstart : Passes d limits [] 0 _ ⟨system, [], false⟩ := .start hstarts henter
  rcases canReturn_run_bind_log hrun with ⟨err, rfl, hlevels⟩ | ⟨found?, log, hlevels, hrun⟩
  · exact ends_of_logged_levels hstart (Nat.zero_add budget) hlevels
  have hends := ends_of_logged_levels hstart (Nat.zero_add budget) hlevels
  cases found? with
  | none =>
      rcases canReturn_run_pure_log hrun with ⟨rfl, rfl⟩
      exact hends
  | some found =>
      rcases exists_labelStates_eq_ok d.logged found.system with ⟨system', hlabel, hstates⟩
      simp only [hlabel, Explore.enter_ok, pure_bind] at hrun
      rcases canReturn_run_pure_log hrun with ⟨rfl, rfl⟩
      exact hends.congr_states hstates

end Dynamics

end Interleaving
