import Interleaving.Proofs.Exploration.Passage
import Interleaving.Proofs.Exploration.Portrait

/-!
# Why an Exploration Fails

A search asks the state space three questions: where runs start, which inputs a state
offers, and where an input leads. It fails exactly when one of these cannot be answered.
The transition system refuses nothing, because the search only hands it references to what
it has added itself.

Which failure it comes across first is fixed by the state space alone. `metFrom` is the
order in which states are met, without a search: once some states have been expanded, the
known states are the initial ones and the successors of the expanded ones, each at the place
where it first occurs. Of these the search asks about the first one that is not expanded yet.
So when a question about a state fails, the states before it in that order are exactly those
that were expanded, and all questions about them were answered. The state is at a distance
that the depth limit allows to be expanded: a failure behind the limit is never reported.

The other way round, nothing within the depth limit is left out unless there is a state
limit, so no failure is passed over.

## Main definitions

* `Dynamics.FailsAt`: A question about a state fails.
* `Dynamics.Answers`: Every question about a state is answered.
* `Dynamics.successors`: Where the inputs of a state lead.
* `Dynamics.metFrom`: The states that are known once some are expanded, in order.

## Theorems

* `Dynamics.follow_complete`: A search that is not full has followed every input.
* `Dynamics.Passes.met`: The known states of a position.
* `Dynamics.Passes.expanding`: A position is a moment of the expansion of a level.
* `Dynamics.Ends.first_failure`, `Dynamics.explore_error_cases`: Why an exploration fails.
* `Dynamics.answers_of_explore`: An exploration that ends well has asked about every state
  within the depth limit.
* `explore_error_is_first_failure`: With what an exploration fails, and that it does.
-/

namespace Interleaving

open MonadAttach (CanReturn)

variable {σ ι : Type}

namespace Dynamics

/-- A question about a state fails: which inputs it offers, or where one of them
    leads. -/
def FailsAt (d : Dynamics Id σ ι) (s : σ) (e : EvalError) : Prop :=
  (d.inputs s).run = .error e ∨
    ∃ inputs, (d.inputs s).run = .ok inputs ∧ ∃ input ∈ inputs, (d.next s input).run = .error e

/-- Every question about a state is answered. -/
def Answers (d : Dynamics Id σ ι) (s : σ) : Prop :=
  ∃ inputs, (d.inputs s).run = .ok inputs ∧ ∀ input ∈ inputs, ∃ t, (d.next s input).run = .ok t

theorem FailsAt.not_answers {d : Dynamics Id σ ι} {s : σ} {e : EvalError} (h : d.FailsAt s e) :
    ¬ d.Answers s := by
  intro hanswers
  rcases hanswers with ⟨inputs, hinputs, hnext⟩
  rcases h with hfails | ⟨inputs', hinputs', input, hinput, hfails⟩
  · rw [hinputs] at hfails
    cases hfails
  · rw [hinputs] at hinputs'
    cases hinputs'
    rcases hnext input hinput with ⟨t, ht⟩
    rw [ht] at hfails
    cases hfails

/-- Where the inputs of a state lead, in order. -/
def successors (d : Dynamics Id σ ι) (s : σ) : List σ :=
  match (d.inputs s).run with
  | .ok inputs => inputs.filterMap fun input => Except.toOption (d.next s input).run
  | .error _ => []

variable [DecidableEq σ]

/-- The states that are known once `expanded` are expanded, in the order in which they are
    met. -/
def metFrom (d : Dynamics Id σ ι) (starts expanded : List σ) : OrderedSet σ :=
  .ofList (starts ++ expanded.flatMap d.successors)

variable {d : Dynamics Id σ ι} {limits : Limits}

theorem metFrom_append_singleton (starts expanded : List σ) (s : σ) :
    d.metFrom starts (expanded ++ [s]) =
      (d.successors s).foldl OrderedSet.insert (d.metFrom starts expanded) := by
  rw [metFrom, metFrom, OrderedSet.ofList, OrderedSet.ofList, List.flatMap_append,
    List.flatMap_singleton, ← List.append_assoc, List.foldl_append]

/-- A search that is not full has followed every input. -/
theorem follow_complete {source : Nat} {s : σ} {inputs : List ι} {search search' : Search σ}
    (hrun : (d.follow limits source s inputs search).run = .ok search')
    (hfull : search'.full = false) :
    (∀ input ∈ inputs, ∃ t, (d.next s input).run = .ok t) ∧
      search'.system.states =
        (inputs.filterMap fun input => Except.toOption (d.next s input).run).foldl
          OrderedSet.insert search.system.states := by
  induction inputs generalizing search with
  | nil =>
      rw [follow, run_pure_eq_ok_iff] at hrun
      rw [hrun]
      exact ⟨fun input hinput => absurd hinput List.not_mem_nil, rfl⟩
  | cons input rest ih =>
      rw [follow] at hrun
      rcases run_bind_eq_ok_iff.mp hrun with ⟨target, hask, hrun⟩
      rcases run_bind_eq_ok_iff.mp hrun with ⟨mid, henter, hrun⟩
      rw [Explore.run_ask_eq_ok_iff] at hask
      rw [Explore.run_enter_eq_ok_iff] at henter
      by_cases hmid : mid.full = true
      · rw [if_pos hmid, run_pure_eq_ok_iff] at hrun
        rw [hrun, hfull] at hmid
        cases hmid
      · rw [if_neg hmid] at hrun
        rcases ih hrun with ⟨hanswers, hstates⟩
        constructor
        · intro input' hinput'
          rcases List.mem_cons.mp hinput' with rfl | hrest
          · exact ⟨target, hask⟩
          · exact hanswers input' hrest
        · have htarget : Except.toOption (d.next s input).run = some target := by
            rw [hask]
            rfl
          rw [hstates, Search.states_eq_of_record henter (Bool.eq_false_iff.mpr hmid)]
          simp only [List.filterMap_cons, htarget, List.foldl_cons]

namespace Passes

variable {asked : List σ} {depth : Nat} {rest : List Nat} {search : Search σ}

/-- The known states of a position are what is met by then, and everything that was asked
    was answered. -/
theorem met (h : Passes d limits asked depth rest search) :
    ∃ starts, d.initial.run = .ok starts ∧ search.system.states = d.metFrom starts asked ∧
      ∀ s ∈ asked, d.Answers s := by
  induction h with
  | @start starts system frontier hstarts henter =>
      refine ⟨starts, hstarts, ?_, fun s hs => absurd hs List.not_mem_nil⟩
      rw [metFrom, List.flatMap_nil, List.append_nil]
      exact (Entered.of_enterInitial henter).2.2
  | @state asked depth id rest search search' s inputs _ _ hs hinputs hfollow hfull ih =>
      rcases ih with ⟨starts, hstarts, hstates, hanswers⟩
      have hrun : (d.inputs s).run = .ok inputs := hinputs
      rcases follow_complete (canReturn_iff_run_eq.mp hfollow) hfull with ⟨hnext, hmet⟩
      refine ⟨starts, hstarts, ?_, ?_⟩
      · rw [metFrom_append_singleton, ← hstates, successors, hrun]
        exact hmet
      · intro u hu
        rcases List.mem_append.mp hu with hold | hnew
        · exact hanswers u hold
        · rw [List.mem_singleton.mp hnew]
          exact ⟨inputs, hrun, hnext⟩
  | level _ _ ih => exact ih

/-- A position is a moment of the expansion of a level, between two states. -/
theorem expanding (h : Passes d limits asked depth rest search) :
    ∃ bound, Counted limits asked depth rest search bound ∧
      Expanding d search depth bound asked.length [] := by
  induction h with
  | @start starts system frontier hstarts henter =>
      refine ⟨_, .start henter, ?_⟩
      rcases Entered.of_enterInitial henter with ⟨hentered, -, hstates⟩
      refine (AtLevel.of_entered hentered ?_).start
      intro s
      rw [starts_iff_of_run hstarts, hstates, OrderedSet.ofList, OrderedSet.mem_foldl_insert]
      exact ⟨Or.inr, fun hs => hs.resolve_left List.not_mem_nil⟩
  | @state asked depth id rest search search' s inputs h _ hs hinputs hfollow hfull ih =>
      rcases ih with ⟨bound, hcount, hexp⟩
      rcases hcount.next_eq with ⟨rfl, hlt, -⟩
      refine ⟨bound, hcount.state hs (follow_extends hfollow), ?_⟩
      have hnone : (d.inputs s).run = .ok ([] ++ inputs) := hinputs
      rcases hexp.follow hlt hs h.full_eq hnone (canReturn_iff_run_eq.mp hfollow) with
        ⟨-, hs', hnext⟩ | ⟨hfull', -⟩
      · rw [List.length_append, List.length_singleton]
        exact hnext.nextState hs' hinputs
      · rw [hfull] at hfull'
        cases hfull'
  | @level asked depth search _ hne ih =>
      rcases ih with ⟨bound, hcount, hexp⟩
      refine ⟨_, hcount.level hne, ?_⟩
      rw [hcount.asked_eq] at hexp ⊢
      exact (AtLevel.of_expanding_of_lt hexp (hcount.lt_size hne)).start

end Passes

/-- The question that has ended a run was about the first state that was not expanded. -/
theorem Ends.first_failure {budget : Nat} {err : ExplorationError σ String String}
    {asked : List σ} (h : Ends d limits budget (.error err) asked) :
    ∃ e, err = .eval e ∧ (d.initial.run = .error e ∨
      ∃ starts expanded s n, d.initial.run = .ok starts ∧ asked = expanded ++ [s] ∧
        expanded ++ [s] <+: (d.metFrom starts expanded).toList ∧ (∀ u ∈ expanded, d.Answers u) ∧
        d.IsDistance n s ∧ limits.depthReached n = false ∧ d.FailsAt s e) := by
  cases h with
  | unstarted hfails => exact ⟨_, rfl, Or.inl hfails⟩
  | @failed expanded depth id rest search s e hpass hdepth hs hfails =>
      rcases hpass.met with ⟨starts, hstarts, hstates, hanswers⟩
      rcases hpass.expanding with ⟨bound, hcount, hexp⟩
      have hbegins := hcount.begins_append hs
      rw [hstates] at hbegins
      rcases hcount.next_eq with ⟨rfl, hlt, -⟩
      exact ⟨e, rfl, Or.inr ⟨starts, expanded, s, depth, hstarts, rfl, hbegins, hanswers,
        hexp.isDistance hlt hs, hdepth, hfails⟩⟩

/-- Why an exploration fails: there is no telling where runs start, or a question about a
    state that may be expanded is not answered. -/
theorem explore_error_cases {budget : Nat} {err : ExplorationError σ String String}
    (h : (d.explore limits budget).run = .error err) :
    ∃ e, err = .eval e ∧ (d.initial.run = .error e ∨
      ∃ n s, limits.depthReached n = false ∧ d.IsDistance n s ∧ d.FailsAt s e) := by
  have hends := ends_of_logged_explore (d.canReturn_logged_explore limits budget)
  rw [h] at hends
  rcases hends.first_failure with
    ⟨e, rfl, hinitial | ⟨starts, expanded, s, n, -, -, -, -, hdist, hdepth, hfails⟩⟩
  · exact ⟨e, rfl, Or.inl hinitial⟩
  · exact ⟨e, rfl, Or.inr ⟨n, s, hdepth, hdist, hfails⟩⟩

end Dynamics

theorem Limits.depthReached_eq_false_iff {limits : Limits} {n : Nat} :
    limits.depthReached n = false ↔ ∀ bound, limits.maxDepth = some bound → n < bound := by
  rw [depthReached]
  cases limits.maxDepth with
  | none => simp [reached]
  | some bound => simp [reached]

theorem Limits.lt_of_depthReached {limits : Limits} {m n : Nat}
    (hm : limits.depthReached m = false) (hn : limits.depthReached n = true) : m < n := by
  cases hlimit : limits.maxDepth with
  | none =>
      rw [depthReached, hlimit] at hn
      cases hn
  | some bound =>
      rw [depthReached, hlimit, reached, decide_eq_false_iff_not] at hm
      rw [depthReached, hlimit, reached, decide_eq_true_iff] at hn
      omega

variable [DecidableEq σ]

/-- Without a state limit, an exploration that ends well has asked about every state
    within the depth limit. -/
theorem Dynamics.answers_of_explore {d : Dynamics Id σ ι} {limits : Limits} {budget : Nat}
    {found : Exploration σ} (hlimits : limits.maxStates = none)
    (h : (d.explore limits budget).run = .ok (some found))
    {m : Nat} {s : σ} (hm : limits.depthReached m = false) (hs : d.IsDistance m s) :
    d.Answers s := by
  rcases explore_cases h with ⟨ended, hended, -, -, -, -⟩
  cases hended with
  | complete hlevel =>
      have hlt := hlevel.lt_of_isDistance hs
      exact hlevel.answers hlevel.nearer ⟨m, hlt, hs.1⟩
  | depthLimit hlevel hlo hlimit =>
      exact hlevel.answers hlevel.nearer ⟨m, Limits.lt_of_depthReached hm hlimit, hs.1⟩
  | stateLimit hover => exact absurd hlimits hover.maxStates_ne_none

/-- An exploration fails only with an error of the state space: there is no telling where
    runs start, or a question about a state fails. This state is at a distance that may be
    expanded. It is the first one that was not expanded, in the order in which states are
    met, and all questions about the states before it were answered. The other way round,
    without a state limit no such failure is passed over. -/
theorem explore_error_is_first_failure (d : Dynamics Id σ ι) (limits : Limits) (budget : Nat) :
    (∀ err, (d.explore limits budget).run = .error err →
      ∃ e, err = .eval e ∧ (d.initial.run = .error e ∨
        ∃ starts expanded s n, d.initial.run = .ok starts ∧
          d.asked limits budget = expanded ++ [s] ∧
          expanded ++ [s] <+: (d.metFrom starts expanded).toList ∧
          (∀ u ∈ expanded, d.Answers u) ∧ d.IsDistance n s ∧
          (∀ bound, limits.maxDepth = some bound → n < bound) ∧ d.FailsAt s e)) ∧
    (limits.maxStates = none →
      ((∃ e, d.initial.run = .error e) ∨ ∃ s n e, d.IsDistance n s ∧
        (∀ bound, limits.maxDepth = some bound → n < bound) ∧ d.FailsAt s e) →
      ∀ found, (d.explore limits budget).run ≠ .ok (some found)) := by
  simp only [← Limits.depthReached_eq_false_iff]
  constructor
  · intro err herr
    have hends := Dynamics.ends_of_logged_explore (d.canReturn_logged_explore limits budget)
    rw [herr] at hends
    exact hends.first_failure
  · intro hlimits hfails found hfound
    rcases hfails with ⟨e, hinitial⟩ | ⟨s, n, e, hdist, hdepth, hfails⟩
    · rcases Dynamics.explore_stages hfound with ⟨starts, -, -, hstarts, -⟩
      rw [hinitial] at hstarts
      cases hstarts
    · exact hfails.not_answers (Dynamics.answers_of_explore hlimits hfound hdepth hdist)

/-- Two ways out of a state, each of which ends in a failure. -/
def Table.brittle : Dynamics Id String Table.Input :=
  Table.dynamics
    { initial := ["a"]
      edges := [("a", "go", "b"), ("a", "go", "c"), ("b", "on", "d"), ("c", "snap", "a")]
      labels := []
      failsInitially := false
      failingStates := ["d"]
      failingActions := ["snap"] }

/-- With two levels the failure at the third state is reported. The one at the fourth
    would come later, and is behind the limit as well. -/
theorem brittle_error_is_first_failure :
    (Table.brittle.explore ⟨some 2, none⟩ 2).run = .error (.eval (.inapplicableEffect "snap")) ∧
      Table.brittle.asked ⟨some 2, none⟩ 2 = ["a", "b", "c"] ∧
      (∃ starts expanded s n, Table.brittle.initial.run = .ok starts ∧
        ["a", "b", "c"] = expanded ++ [s] ∧
        expanded ++ [s] <+: (Table.brittle.metFrom starts expanded).toList ∧
        (∀ u ∈ expanded, Table.brittle.Answers u) ∧ Table.brittle.IsDistance n s ∧ n < 2 ∧
        Table.brittle.FailsAt s (.inapplicableEffect "snap")) ∧
      ∀ budget found, (Table.brittle.explore ⟨some 2, none⟩ budget).run ≠ .ok (some found) := by
  have hrun : (Table.brittle.explore ⟨some 2, none⟩ 2).run =
      .error (.eval (.inapplicableEffect "snap")) := by
    show @Eq (Except (ExplorationError String String String) (Option (Exploration String))) _ _
    decide +kernel
  have hasked : Table.brittle.asked ⟨some 2, none⟩ 2 = ["a", "b", "c"] := by
    decide +kernel
  rcases (explore_error_is_first_failure Table.brittle ⟨some 2, none⟩ 2).1 _ hrun with
    ⟨e, he, hinitial |
      ⟨starts, expanded, s, n, hstarts, hlist, hbegins, hanswers, hdist, hlt, hfails⟩⟩
  · cases hinitial
  cases he
  refine ⟨hrun, hasked, ⟨starts, expanded, s, n, hstarts, hasked ▸ hlist, hbegins, hanswers, hdist,
    hlt 2 rfl, hfails⟩, ?_⟩
  intro budget
  exact (explore_error_is_first_failure Table.brittle ⟨some 2, none⟩ budget).2 rfl
    (Or.inr ⟨s, n, _, hdist, hlt, hfails⟩)

end Interleaving
