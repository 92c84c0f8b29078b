import Interleaving.Proofs.ChannelSystem.Steps
import Interleaving.Proofs.ProgramGraph.Steps

/-!
# Failures That a Registry Reports

A state space can fail for reasons of its own: a state has a location too many, an input
names no edge, or an action that was possible is not any more. None of this happens in an
exploration. A state that is reached has one location for each process, an input comes from
the edges of the graph, and a pure handler does not change its mind. What is left are the
failures that the registry reports about some text, and an initialization that it refuses.

The errors are followed from the texts up, through the same functions in which they could
arise.

## Main definitions

* `Registry.Reports`: The errors that come from a registry.

## Theorems

* `Registry.failsOnly_runInitialization`, `Registry.failsOnly_edgeEffect`: What is made of
  texts.
* `ProgramGraph.failsOnly_inputs`, `ChannelSystem.failsOnly_moves`: The questions about a state.
* `ProgramGraph.explore_error_cases`: The questions that an exploration of a graph fails at.
* `ProgramGraph.reports_of_explore`, `ChannelSystem.reports_of_explore`: Explorations fail
  only with what the registry reports.
-/

namespace Interleaving

variable {L : Type}

namespace Registry

/-- An error comes from a registry: one of its handlers fails on some text, no handler
    recognizes it, or an initialization action is disabled. -/
inductive Reports (r : Registry Id) : EvalError → Prop where
  | action {env : Environment} {text : String} {e : EvalError}
      (h : (r.effect env text).run = .error e) : Reports r e
  | condition {env : Environment} {text : String} {e : EvalError}
      (h : (r.holds env text).run = .error e) : Reports r e
  | rendezvous {env : Environment} {text : String} {e : EvalError}
      (h : (r.rendezvousEffect env text).run = .error e) : Reports r e
  | initialization {env : Environment} {text : String}
      (h : (r.effect env text).run = .ok none) : Reports r (.inapplicableInitialization text)

variable (r : Registry Id) (env : Environment)

theorem failsOnly_runInitialization (actions : List String) :
    FailsOnly r.Reports (r.runInitialization env actions) := by
  refine .foldlM ?_ actions env
  intro env action e h
  rcases run_bind_eq_error_iff.mp h with heffect | ⟨next?, heffect, h⟩
  · exact .action heffect
  · cases next? with
    | some next => cases h
    | none =>
        cases h
        exact .initialization heffect

theorem failsOnly_edgeEffect (e : Edge L) : FailsOnly r.Reports (r.edgeEffect env e) := by
  refine .bind (fun _ => .condition) fun b => ?_
  exact .ite (fun _ _ => .action) fun _ => .pure none

end Registry

namespace ProgramGraph

variable (g : ProgramGraph L) (r : Registry Id)

theorem failsOnly_initialStates : FailsOnly r.Reports (g.initialStates r) := by
  have henvironments : FailsOnly r.Reports (g.initialEnvironments r) := by
    refine .ite (fun _ => .pure _) fun _ => .mapM fun actions _ => ?_
    exact r.failsOnly_runInitialization .empty actions
  exact henvironments.bind fun _ => .pure _

variable [DecidableEq L]

theorem failsOnly_inputs (s : ProgramState L) : FailsOnly r.Reports (g.inputs r s) := by
  rw [inputs_eq]
  refine .bind (.mapM fun pair _ => ?_) fun _ => .pure _
  exact (r.failsOnly_edgeEffect s.env pair.1).bind fun _ => .pure _

/-- An exploration of a graph does not fail where an input is taken: an input names an edge that
    leads somewhere, and taking it leads there again. -/
theorem explore_error_cases {limits : Limits} {budget : Nat}
    {err : ExplorationError (ProgramState L) String String}
    (h : ((g.dynamics r).explore limits budget).run = .error err) :
    ∃ e, err = .eval e ∧ ((g.initialStates r).run = .error e ∨
      ∃ s, (g.dynamics r).Reachable s ∧ (g.inputs r s).run = .error e) := by
  rcases Dynamics.explore_error_cases h with ⟨e, rfl, hinitial | ⟨n, s, -, hdist, hfails⟩⟩
  · exact ⟨e, rfl, Or.inl hinitial⟩
  refine ⟨e, rfl, Or.inr ⟨s, ⟨n, hdist.1⟩, ?_⟩⟩
  rcases hfails with hinputs | ⟨inputs, hinputs, input, hinput, hnext⟩
  · exact hinputs
  · rcases (mem_inputs_iff hinputs).mp hinput with ⟨edge, env, hindex, -, hafter, -⟩
    have hok := run_next_of_after? hindex hafter input.action
    cases hok.symm.trans hnext

/-- It fails only with what the registry reports. -/
theorem reports_of_explore {limits : Limits} {budget : Nat}
    {err : ExplorationError (ProgramState L) String String}
    (h : ((g.dynamics r).explore limits budget).run = .error err) :
    ∃ e, err = .eval e ∧ r.Reports e := by
  rcases g.explore_error_cases r h with ⟨e, rfl, hinitial | ⟨s, -, hinputs⟩⟩
  · exact ⟨e, rfl, g.failsOnly_initialStates r e hinitial⟩
  · exact ⟨e, rfl, g.failsOnly_inputs r s e hinputs⟩

end ProgramGraph

namespace ChannelSystem

variable (c : ChannelSystem L) (r : Registry Id) (s : SystemState L)

theorem failsOnly_initialStates : FailsOnly r.Reports (c.initialStates r) :=
  .bind (r.failsOnly_runInitialization .empty c.initializationActions) fun _ => .pure _

theorem failsOnly_interleave (i : Nat) (e : Edge L) :
    FailsOnly r.Reports (interleave r s i e) := by
  refine .bind (r.failsOnly_edgeEffect s.env e) fun env? => ?_
  cases env? with
  | none => exact .pure []
  | some env => exact .pure _

theorem failsOnly_meet (i : Nat) (e : Edge L) (j : Nat) (p : Edge L) :
    FailsOnly r.Reports (meet r s i e j p) := by
  refine .ite (fun _ => .bind ?_ fun b => .ite (fun _ => ?_) fun _ => .pure none)
    fun _ => .pure none
  · exact .bind (fun _ => .condition) fun b => .ite (fun _ _ => .condition) fun _ => .pure false
  · exact .bind (fun _ => .rendezvous) fun _ => .pure _

/-- Every place of a state is that of a process. -/
theorem lt_of_mem_zipIdx {c : ChannelSystem L} {s : SystemState L} (hs : s.Fits c)
    {place : L × Nat} (hplace : place ∈ s.locations.zipIdx) : place.2 < c.processes.length := by
  have hlt := List.snd_lt_of_mem_zipIdx hplace
  rwa [hs] at hlt

variable [DecidableEq L]

/-- The edges of a process that is there can be told. -/
theorem failsOnly_edgesOf {c : ChannelSystem L} {i : Nat} (hi : i < c.processes.length)
    (location : L) : FailsOnly r.Reports (c.edgesOf i location) := by
  rw [edgesOf_eq (List.getElem?_eq_getElem hi)]
  exact .pure _

variable {c s} (hs : s.Fits c)
include hs

theorem failsOnly_rendezvous (i : Nat) (e : Edge L) :
    FailsOnly r.Reports (c.rendezvous r s i e) := by
  refine .bind (.mapM fun place hplace => ?_) fun _ => .pure _
  have hj := lt_of_mem_zipIdx hs (List.mem_of_mem_drop hplace)
  refine .bind (failsOnly_edgesOf r hj place.1) fun partners => ?_
  exact .bind (.mapM fun p _ => failsOnly_meet r s i e place.2 p) fun _ => .pure _

theorem failsOnly_moves : FailsOnly r.Reports (c.moves r s) := by
  refine .bind (.mapM fun place hplace => ?_) fun _ => .pure _
  refine .bind (failsOnly_edgesOf r (lt_of_mem_zipIdx hs hplace) place.1) fun edges => ?_
  refine .bind (.mapM fun e _ => ?_) fun _ => .pure _
  exact .ite (fun _ => failsOnly_rendezvous r hs place.2 e)
    fun _ => failsOnly_interleave r s place.2 e

omit hs in
/-- An exploration of a channel system fails only with what the registry reports. -/
theorem reports_of_explore {limits : Limits} {budget : Nat}
    {err : ExplorationError (SystemState L) String String}
    (h : ((c.dynamics r).explore limits budget).run = .error err) :
    ∃ e, err = .eval e ∧ r.Reports e := by
  rcases Dynamics.explore_error_cases h with ⟨e, rfl, hinitial | ⟨n, s, -, hdist, hfails⟩⟩
  · exact ⟨e, rfl, c.failsOnly_initialStates r e hinitial⟩
  refine ⟨e, rfl, ?_⟩
  have hs : s.Fits c := fits_of_reachable ⟨n, hdist.1⟩
  rcases hfails with hmoves | ⟨moves, -, move, -, hnext⟩
  · exact failsOnly_moves r hs e hmoves
  · cases hnext

end ChannelSystem

end Interleaving
