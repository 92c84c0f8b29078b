import Interleaving.Proofs.Exploration.Failure
import Interleaving.Proofs.ProgramGraph.Groups

/-!
# The Steps of a Program Graph

What a program graph does in a state, read off its edges. An edge that leaves the
location of the state is a step if its guard holds and its action is enabled. The
inputs of the state can be told exactly if no guard and no action of these edges fails.
Taking an input cannot fail then: its effect is computed for a second time, and a pure
handler gives the same answer again.

So all there is to know about a state is which edges leave its location. Neither the
order of the edges nor the indices by which the inputs name them come up in what
follows.

## Main definitions

* `Registry.after?`: The environment after an edge.
* `Registry.FailsOn`: The evaluation of an edge fails.

## Theorems

* `ProgramGraph.inputs_givesUnless`: The inputs of a state.
* `ProgramGraph.starts_iff`, `ProgramGraph.answers_iff`, `ProgramGraph.leads_iff`: The state
  space of a graph by its edges.
-/

namespace Interleaving

variable {L : Type}

namespace Registry

/-- The environment after an edge, if its guard holds and its action is enabled. -/
def after? (r : Registry Id) (env : Environment) (e : Edge L) : Option Environment :=
  match (r.holds env e.guard).run, (r.effect env e.action).run with
  | .ok true, .ok (some next) => some next
  | _, _ => none

/-- The evaluation of an edge fails: its guard does, or its action after the guard
    holds. -/
def FailsOn (r : Registry Id) (env : Environment) (e : Edge L) : Prop :=
  (∃ err, (r.holds env e.guard).run = .error err) ∨
    ((r.holds env e.guard).run = .ok true ∧ ∃ err, (r.effect env e.action).run = .error err)

theorem edgeEffect_givesUnless (r : Registry Id) (env : Environment) (e : Edge L) :
    GivesUnless (r.edgeEffect env e) (r.FailsOn env e) (r.after? env e) := by
  refine .of_iff ?_ ?_
  · simp only [edgeEffect, run_guarded_eq_error_iff, exists_or, exists_and_left, FailsOn]
  · intro next? hrun
    rcases run_guarded_eq_ok_iff.mp hrun with ⟨hguard, heffect⟩ | ⟨hguard, rfl⟩
    · cases next? with
      | none => simp [after?, hguard, heffect]
      | some next => simp [after?, hguard, heffect]
    · simp [after?, hguard]

theorem after?_eq_some_iff {r : Registry Id} {env next : Environment} {e : Edge L} :
    r.after? env e = some next ↔
      (r.holds env e.guard).run = .ok true ∧ (r.effect env e.action).run = .ok (some next) := by
  constructor
  · intro h
    unfold after? at h
    split at h
    · next next' hguard heffect =>
      cases h
      exact ⟨hguard, heffect⟩
    · cases h
  · intro h
    rw [after?, h.1, h.2]

/-- An edge that leads somewhere has an enabled action. -/
theorem run_effect_of_after? {r : Registry Id} {env next : Environment} {e : Edge L}
    (h : r.after? env e = some next) : (r.effect env e.action).run = .ok (some next) :=
  (after?_eq_some_iff.mp h).2

end Registry

namespace ProgramGraph

variable {g : ProgramGraph L} {r : Registry Id} {s : ProgramState L}

/-- Taking an input computes the effect of its edge again. -/
theorem run_next_of_after? {index : Nat} {e : Edge L} {next : Environment}
    (hindex : g.edges[index]? = some e) (hnext : r.after? s.env e = some next)
    (action : String) :
    (g.next r s ⟨index, action⟩).run = .ok ⟨e.target, next⟩ := by
  rw [ProgramGraph.next, edgeAt_of_getElem? hindex, pure_bind]
  rw [run_bind_of_ok (Registry.run_effect_of_after? hnext)]
  rfl

variable [DecidableEq L]

theorem exists_edgesFrom_iff {location : L} {p : Edge L → Prop} :
    (∃ pair ∈ g.edgesFrom location, p pair.1) ↔ ∃ e ∈ g.edges, e.source = location ∧ p e := by
  constructor
  · intro h
    rcases h with ⟨⟨e, index⟩, hpair, hp⟩
    rcases mem_edgesFrom_iff.mp hpair with ⟨hindex, hsource⟩
    exact ⟨e, List.mem_of_getElem? hindex, hsource, hp⟩
  · intro h
    rcases h with ⟨e, he, hsource, hp⟩
    rcases List.mem_iff_getElem?.mp he with ⟨index, hindex⟩
    exact ⟨(e, index), mem_edgesFrom_iff.mpr ⟨hindex, hsource⟩, hp⟩

/-- The inputs of a state are the edges that lead somewhere. They are there exactly if
    the evaluation of no edge fails. -/
theorem inputs_givesUnless (g : ProgramGraph L) (r : Registry Id) (s : ProgramState L) :
    GivesUnless (g.inputs r s) (∃ e ∈ g.edges, e.source = s.location ∧ r.FailsOn s.env e)
      ((g.edgesFrom s.location).filterMap fun pair =>
        (r.after? s.env pair.1).map fun _ => ⟨pair.2, pair.1.action⟩) := by
  have hedge : ∀ pair ∈ g.edgesFrom s.location, GivesUnless
      (do return (← r.edgeEffect s.env pair.1).map fun _ => (⟨pair.2, pair.1.action⟩ : Input))
      (r.FailsOn s.env pair.1)
      ((r.after? s.env pair.1).map fun _ => (⟨pair.2, pair.1.action⟩ : Input)) := by
    intro pair _
    exact (r.edgeEffect_givesUnless s.env pair.1).andThen _
  rw [inputs_eq]
  refine ((GivesUnless.mapM hedge).andThen (List.filterMap id)).congr ?_ ?_
  · exact exists_edgesFrom_iff
  · rw [List.filterMap_map]
    rfl

/-- An input of a state names an edge that leads somewhere, and it leads there. -/
theorem mem_inputs_iff {inputs : List Input} (h : (g.inputs r s).run = .ok inputs)
    {input : Input} : input ∈ inputs ↔
      ∃ e next, g.edges[input.edge]? = some e ∧ e.source = s.location ∧
        r.after? s.env e = some next ∧ input.action = e.action := by
  rcases input with ⟨index, action⟩
  rw [(inputs_givesUnless g r s).eq_of_run_eq_ok h, List.mem_filterMap]
  constructor
  · intro hinput
    rcases hinput with ⟨⟨e, index'⟩, hpair, hmap⟩
    rcases Option.map_eq_some_iff.mp hmap with ⟨next, hnext, heq⟩
    cases heq
    rcases mem_edgesFrom_iff.mp hpair with ⟨hindex, hsource⟩
    exact ⟨e, next, hindex, hsource, hnext, rfl⟩
  · intro hinput
    rcases hinput with ⟨e, next, hindex, hsource, hnext, rfl⟩
    refine ⟨(e, index), mem_edgesFrom_iff.mpr ⟨hindex, hsource⟩, ?_⟩
    rw [hnext]
    rfl

/-- It can be told where runs start exactly if every initialization sequence goes
    through. -/
theorem initial_iff : (∃ starts, (g.dynamics r).initial.run = .ok starts) ↔
    ∃ environments, (g.initialEnvironments r).run = .ok environments := by
  constructor
  · intro h
    rcases h with ⟨starts, hstarts⟩
    rcases run_bind_eq_ok_iff.mp hstarts with ⟨environments, henv, -⟩
    exact ⟨environments, henv⟩
  · intro h
    rcases h with ⟨environments, henv⟩
    exact ⟨_, run_bind_eq_ok_iff.mpr ⟨environments, henv, rfl⟩⟩

/-- Runs start at every initial location, in every initial environment. -/
theorem starts_iff : (g.dynamics r).Starts s ↔ s.location ∈ g.initial ∧
    ∃ environments, (g.initialEnvironments r).run = .ok environments ∧ s.env ∈ environments := by
  rcases s with ⟨location, env⟩
  have hmem : ∀ environments : List Environment,
      (⟨location, env⟩ : ProgramState L) ∈
          g.initial.toList.flatMap (fun l => environments.map (⟨l, ·⟩)) ↔
        location ∈ g.initial ∧ env ∈ environments := by
    intro environments
    simp [OrderedSet.mem_toList]
  constructor
  · intro h
    rcases h with ⟨starts, hstarts, hs⟩
    rcases run_bind_eq_ok_iff.mp hstarts with ⟨environments, henv, hpure⟩
    cases hpure
    rcases (hmem environments).mp hs with ⟨hlocation, hin⟩
    exact ⟨hlocation, environments, henv, hin⟩
  · intro h
    rcases h with ⟨hlocation, environments, henv, hin⟩
    exact ⟨_, run_bind_eq_ok_iff.mpr ⟨environments, henv, rfl⟩,
      (hmem environments).mpr ⟨hlocation, hin⟩⟩

/-- A state answers all questions exactly if the evaluation of no edge fails. -/
theorem answers_iff : (g.dynamics r).Answers s ↔
    ¬ ∃ e ∈ g.edges, e.source = s.location ∧ r.FailsOn s.env e := by
  rw [← (inputs_givesUnless g r s).exists_run_eq_ok_iff]
  constructor
  · intro h
    rcases h with ⟨inputs, hinputs, -⟩
    exact ⟨inputs, hinputs⟩
  · intro h
    rcases h with ⟨inputs, hinputs⟩
    refine ⟨inputs, hinputs, ?_⟩
    intro input hinput
    rcases (mem_inputs_iff hinputs).mp hinput with ⟨e, next, hindex, -, hnext, -⟩
    exact ⟨_, run_next_of_after? hindex hnext _⟩

/-- Where a state leads: along the edges that leave its location. -/
theorem leads_iff {action : String} {t : ProgramState L} :
    (g.dynamics r).Leads s action t ↔
      (¬ ∃ e ∈ g.edges, e.source = s.location ∧ r.FailsOn s.env e) ∧
      ∃ e ∈ g.edges, e.source = s.location ∧ e.action = action ∧ e.target = t.location ∧
        r.after? s.env e = some t.env := by
  rw [← (inputs_givesUnless g r s).exists_run_eq_ok_iff]
  constructor
  · intro h
    rcases h with ⟨inputs, hinputs, ⟨index, action'⟩, hinput, haction, hnext⟩
    rcases (mem_inputs_iff hinputs).mp hinput with ⟨e, next, hindex, hsource, hafter, haction'⟩
    have hrun : (g.next r s ⟨index, action'⟩).run = .ok t := hnext
    rw [run_next_of_after? hindex hafter action'] at hrun
    cases hrun
    exact ⟨⟨inputs, hinputs⟩, e, List.mem_of_getElem? hindex, hsource,
      haction'.symm.trans haction, rfl, hafter⟩
  · intro h
    rcases h with ⟨⟨inputs, hinputs⟩, e, he, hsource, rfl, htarget, hafter⟩
    rcases List.mem_iff_getElem?.mp he with ⟨index, hindex⟩
    refine ⟨inputs, hinputs, ⟨index, e.action⟩, ?_, rfl, ?_⟩
    · exact (mem_inputs_iff hinputs).mpr ⟨e, t.env, hindex, hsource, hafter, rfl⟩
    · have hrun := run_next_of_after? hindex hafter e.action
      rw [htarget] at hrun
      exact hrun

end ProgramGraph

end Interleaving
