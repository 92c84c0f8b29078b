import Interleaving.Proofs.ProgramGraph.References
import Interleaving.Proofs.Registry.Reports
import Interleaving.Proofs.Script.Composition
import Interleaving.Proofs.Script.Exact
import Mathlib.Data.List.ProdSigma

/-!
# Starts and Enabled Edges

Where the runs of a program graph start, and which edges a state offers. The starts are a
product: each initial location stands once with each environment that an initialization
sequence makes. The sequences know nothing of each other, since each begins with nothing, and
they are all run before a location is looked at.

The inputs of a state are indices in increasing order, of exactly the edges that are enabled
there. Whether an edge is enabled and where it leads are two questions, and the action of the
edge is computed for both. Handlers are functions here, so the second answer is the first one
over again, and the failure that an action became inapplicable in the meantime is left to
handlers that report it of their own accord. Those of the language do not, but a handler may:
there is a graph with one edge and a registry with one handler where it happens.

## Main definitions

* `ProgramGraph.statesOf`: Every location with every environment.
* `ProgramGraph.Enables`: An edge leads from one state to another.

## Theorems

* `ProgramGraph.run_initialStates_eq_ok_iff`, `ProgramGraph.exists_initialStates_error_iff`:
  The product, and when there is none.
* `ProgramGraph.pairwise_lt_inputs`, `ProgramGraph.mem_inputs_edge_iff`: The indices of the
  inputs.
* `ProgramGraph.run_next_of_enables`: Taking an enabled edge.
* `Registry.standard_effect_ne_inapplicableEffect`,
  `Registry.standard_holds_ne_inapplicableEffect`: The handlers of the language.
* `ProgramGraph.inapplicableEffect_of_explore`: Who reports an action as inapplicable.
* `ProgramGraph.starts_product_and_inputs_enabled`: All of this for every graph, and what it
  means for explorations.
* `ProgramGraph.crossing_reports_inapplicableEffect`: An exploration in which a handler reports
  an action as inapplicable.
-/

namespace Interleaving

variable {L : Type}

namespace ProgramGraph

section Starts

/-- Every location with every environment, the environments changing faster. -/
def statesOf (locations : List L) (environments : List Environment) : List (ProgramState L) :=
  (locations ×ˢ environments).map fun pair => ⟨pair.1, pair.2⟩

theorem length_statesOf (locations : List L) (environments : List Environment) :
    (statesOf locations environments).length = locations.length * environments.length := by
  rw [statesOf, List.length_map, List.length_product]

theorem flatMap_eq_statesOf (locations : List L) (environments : List Environment) :
    (locations.flatMap fun location => environments.map (⟨location, ·⟩)) =
      statesOf locations environments := by
  have hproduct : locations ×ˢ environments =
      locations.flatMap fun location => environments.map (location, ·) := rfl
  rw [statesOf, hproduct, List.map_flatMap]
  simp only [List.map_map, Function.comp_def]

variable {g : ProgramGraph L} {r : Registry Id}

/-- Without sequences there is nothing to run, and the empty environment is there anyway. -/
theorem run_initialEnvironments_eq_ok_iff {found : List Environment} :
    (g.initialEnvironments r).run = .ok found ↔ ∃ environments,
      List.Forall₂ (fun actions env => (r.runInitialization .empty actions).run = .ok env)
        g.initializations environments ∧
      found = if environments.isEmpty then [.empty] else environments := by
  unfold initialEnvironments
  cases hinit : g.initializations with
  | nil =>
      rw [List.isEmpty_nil, if_pos rfl, run_pure_eq_ok_iff]
      simp only [List.forall₂_nil_left_iff, exists_eq_left]
      exact eq_comm
  | cons actions rest =>
      rw [List.isEmpty_cons, if_neg Bool.false_ne_true, run_mapM_eq_ok_iff]
      constructor
      · intro h
        refine ⟨found, h, ?_⟩
        cases h
        rfl
      · intro h
        rcases h with ⟨environments, h, rfl⟩
        cases h with
        | cons hfirst hrest => exact .cons hfirst hrest

theorem exists_initialEnvironments_error_iff :
    (∃ err, (g.initialEnvironments r).run = .error err) ↔
      ∃ actions ∈ g.initializations, ∃ err,
        (r.runInitialization .empty actions).run = .error err := by
  unfold initialEnvironments
  cases hinit : g.initializations with
  | nil =>
      constructor
      · rintro ⟨err, h⟩
        cases h
      · rintro ⟨actions, hactions, -⟩
        cases hactions
  | cons actions rest =>
      rw [List.isEmpty_cons, if_neg Bool.false_ne_true]
      exact exists_run_mapM_eq_error_iff

theorem run_initialStates_eq_ok_iff {starts : List (ProgramState L)} :
    (g.initialStates r).run = .ok starts ↔ ∃ environments,
      List.Forall₂ (fun actions env => (r.runInitialization .empty actions).run = .ok env)
        g.initializations environments ∧
      starts = statesOf g.initial.toList
        (if environments.isEmpty then [.empty] else environments) := by
  rw [initialStates, run_bind_eq_ok_iff]
  simp only [run_pure_eq_ok_iff, flatMap_eq_statesOf, run_initialEnvironments_eq_ok_iff]
  constructor
  · rintro ⟨found, ⟨environments, hall, rfl⟩, rfl⟩
    exact ⟨environments, hall, rfl⟩
  · rintro ⟨environments, hall, rfl⟩
    exact ⟨_, ⟨environments, hall, rfl⟩, rfl⟩

theorem exists_initialStates_error_iff :
    (∃ err, (g.initialStates r).run = .error err) ↔
      ∃ actions ∈ g.initializations, ∃ err,
        (r.runInitialization .empty actions).run = .error err := by
  rw [← exists_initialEnvironments_error_iff]
  exact exists_congr fun err => run_bind_eq_error_iff_of_ne fun _ => nofun

/-- There are as many starts as pairs of an initial location and a sequence. -/
theorem length_of_run_initialStates {starts : List (ProgramState L)}
    (h : (g.initialStates r).run = .ok starts) :
    starts.length = g.initial.size * max 1 g.initializations.length := by
  rcases run_initialStates_eq_ok_iff.mp h with ⟨environments, hall, rfl⟩
  rw [length_statesOf, hall.length_eq, OrderedSet.size]
  cases environments with
  | nil => rfl
  | cons env rest =>
      have hmax : max 1 (env :: rest).length = (env :: rest).length :=
        Nat.max_eq_right (Nat.succ_le_succ (Nat.zero_le _))
      rw [hmax]
      rfl

end Starts

section Enabled

/-- The edge at an index leads from one state to another: it leaves the location of the first,
    its guard holds there, and its action makes the environment of the second. -/
def Enables (g : ProgramGraph L) (r : Registry Id) (s : ProgramState L) (index : Nat)
    (t : ProgramState L) : Prop :=
  ∃ e, g.edges[index]? = some e ∧ e.source = s.location ∧ e.target = t.location ∧
    (r.holds s.env e.guard).run = .ok true ∧ (r.effect s.env e.action).run = .ok (some t.env)

variable {g : ProgramGraph L} {r : Registry Id} {s t : ProgramState L}

theorem run_next_of_enables {input : Input} (h : g.Enables r s input.edge t) :
    (g.next r s input).run = .ok t := by
  rcases h with ⟨e, hindex, -, htarget, hlead⟩
  have hnext := run_next_of_after? hindex (Registry.after?_eq_some_iff.mpr hlead) input.action
  rw [htarget] at hnext
  exact hnext

variable [DecidableEq L] {inputs : List Input}

theorem mem_inputs_edge_iff (h : (g.inputs r s).run = .ok inputs) {index : Nat} :
    index ∈ inputs.map Input.edge ↔ ∃ t, g.Enables r s index t := by
  rw [List.mem_map]
  constructor
  · rintro ⟨input, hinput, rfl⟩
    rcases (mem_inputs_iff h).mp hinput with ⟨e, env, hindex, hsource, hafter, -⟩
    exact ⟨⟨e.target, env⟩, e, hindex, hsource, rfl, Registry.after?_eq_some_iff.mp hafter⟩
  · rintro ⟨t, e, hindex, hsource, -, hlead⟩
    refine ⟨⟨index, e.action⟩, (mem_inputs_iff h).mpr ?_, rfl⟩
    exact ⟨e, t.env, hindex, hsource, Registry.after?_eq_some_iff.mpr hlead, rfl⟩

/-- The edges that leave a location keep their order. -/
theorem pairwise_lt_edgesFrom (g : ProgramGraph L) (location : L) :
    (g.edgesFrom location).Pairwise fun pair other => pair.2 < other.2 := by
  exact g.pairwise_lt_zipIdx_edges.filter _

theorem pairwise_lt_inputs (h : (g.inputs r s).run = .ok inputs) :
    (inputs.map Input.edge).Pairwise (· < ·) := by
  rw [(inputs_givesUnless g r s).eq_of_run_eq_ok h, List.pairwise_map, List.pairwise_filterMap]
  refine (g.pairwise_lt_edgesFrom s.location).imp ?_
  intro pair other hlt input hinput input' hinput'
  rcases Option.map_eq_some_iff.mp hinput with ⟨-, -, rfl⟩
  rcases Option.map_eq_some_iff.mp hinput' with ⟨-, -, rfl⟩
  exact hlt

end Enabled

end ProgramGraph

section Handlers

open Script

variable {env : Environment} {action : String}

theorem Script.Expr.eval_ne_inapplicableEffect (e : Expr) :
    e.eval env ≠ .error (.inapplicableEffect action) := by
  intro h
  have hfollows := follows_eval env e
  rw [h] at hfollows
  cases hfollows with
  | failure _ hfails => cases hfails

theorem Script.Expr.holds_ne_inapplicableEffect (e : Expr) :
    e.holds env ≠ .error (.inapplicableEffect action) := by
  intro h
  rcases bind_eq_error_iff.mp h with heval | ⟨v, -, hbool⟩
  · exact e.eval_ne_inapplicableEffect heval
  · cases v <;> cases hbool

theorem Script.Statement.run_ne_inapplicableEffect (ss : List Statement) :
    Statement.run ss env ≠ .error (.inapplicableEffect action) := by
  induction ss generalizing env with
  | nil => nofun
  | cons s rest ih =>
      intro h
      rw [Statement.run, List.foldlM_cons] at h
      rcases bind_eq_error_iff.mp h with hstep | ⟨mid, -, hrest⟩
      · cases s with
        | skip => cases hstep
        | assign target value =>
            rcases bind_eq_error_iff.mp hstep with heval | ⟨v, -, hinsert⟩
            · exact value.eval_ne_inapplicableEffect heval
            · cases hinsert
      · exact ih hrest

/-- No handler of the language reports an action as inapplicable. -/
theorem Registry.standard_effect_ne_inapplicableEffect (text : String) :
    ((Registry.standard : Registry Id).effect env text).run ≠
      .error (.inapplicableEffect action) := by
  cases hparse : Statement.parse? text with
  | none =>
      have hnot : Kind.action.reads text = false := by
        rw [Kind.reads, hparse]
        rfl
      rw [run_standard_effect_of_not_action hnot]
      intro h
      cases h
  | some ss =>
      rw [run_standard_effect hparse]
      cases hrun : Statement.run ss env with
      | ok next =>
          intro h
          cases h
      | error err =>
          intro h
          cases h
          exact Statement.run_ne_inapplicableEffect ss hrun

theorem Registry.standard_holds_ne_inapplicableEffect (text : String) :
    ((Registry.standard : Registry Id).holds env text).run ≠
      .error (.inapplicableEffect action) := by
  cases hparse : Expr.parse? text with
  | some e =>
      rw [run_standard_holds hparse]
      exact e.holds_ne_inapplicableEffect
  | none =>
      have hfind : (Registry.standard : Registry Id).conditions.find? (·.recognizes text) =
          if Text.isBlank text then some conditionHandler else none := by
        simp [Registry.standard, conditionHandler, hparse, List.find?_singleton]
      unfold Registry.holds
      rw [hfind]
      intro h
      by_cases hblank : Text.isBlank text = true
      · rw [if_pos hblank] at h
        simp only [conditionHandler, hblank, if_true] at h
        cases h
      · rw [if_neg hblank] at h
        cases h

end Handlers

namespace ProgramGraph

variable [DecidableEq L]

/-- An exploration reports an action as inapplicable only if a handler does. -/
theorem inapplicableEffect_of_explore {g : ProgramGraph L} {r : Registry Id} {limits : Limits}
    {budget : Nat} {action : String}
    (h : ((g.dynamics r).explore limits budget).run = .error (.eval (.inapplicableEffect action))) :
    ∃ env text, (r.effect env text).run = .error (.inapplicableEffect action) ∨
      (r.holds env text).run = .error (.inapplicableEffect action) := by
  -- A graph has nobody to meet, so the handlers of combined actions may be left out.
  let alone : Registry Id := { r with rendezvous := [] }
  rcases g.reports_of_explore alone h with ⟨e, he, hreports⟩
  cases he
  cases hreports with
  | action heffect => exact ⟨_, _, Or.inl heffect⟩
  | condition hholds => exact ⟨_, _, Or.inr hholds⟩
  | rendezvous heffect => cases heffect

/-- The starts of a graph are the product of its initial locations with what its initialization
    sequences make, each by itself, and they cannot be told if a sequence fails. The inputs of a
    state are its enabled edges in their order, each once, and taking one leads where it says.
    So an exploration fails for a start or for the inputs of a state, and not because an enabled
    action became inapplicable, unless a handler says so by itself. -/
theorem starts_product_and_inputs_enabled (g : ProgramGraph L) (r : Registry Id) :
    ((∃ err, (g.initialStates r).run = .error err) ↔
      ∃ actions ∈ g.initializations, ∃ err,
        (r.runInitialization .empty actions).run = .error err) ∧
    (∀ starts, (g.initialStates r).run = .ok starts →
      (∃ environments,
        List.Forall₂ (fun actions env => (r.runInitialization .empty actions).run = .ok env)
          g.initializations environments ∧
        starts = statesOf g.initial.toList
          (if environments.isEmpty then [.empty] else environments)) ∧
      starts.length = g.initial.size * max 1 g.initializations.length) ∧
    (∀ s inputs, (g.inputs r s).run = .ok inputs →
      (inputs.map Input.edge).Pairwise (· < ·) ∧
      (∀ index, index ∈ inputs.map Input.edge ↔ ∃ t, g.Enables r s index t) ∧
      ∀ input ∈ inputs, ∀ t, g.Enables r s input.edge t → (g.next r s input).run = .ok t) ∧
    (∀ limits budget err, ((g.dynamics r).explore limits budget).run = .error err →
      ∃ e, err = .eval e ∧
        ((g.initialStates r).run = .error e ∨
          ∃ s, (g.dynamics r).Reachable s ∧ (g.inputs r s).run = .error e) ∧
        ∀ action, e = .inapplicableEffect action →
          ∃ env text, (r.effect env text).run = .error e ∨ (r.holds env text).run = .error e) ∧
    ∀ limits budget action,
      ((g.dynamics (Registry.standard : Registry Id)).explore limits budget).run ≠
        .error (.eval (.inapplicableEffect action)) := by
  refine ⟨exists_initialStates_error_iff, ?_, ?_, ?_, ?_⟩
  · intro starts h
    exact ⟨run_initialStates_eq_ok_iff.mp h, length_of_run_initialStates h⟩
  · intro s inputs h
    exact ⟨pairwise_lt_inputs h, fun _ => mem_inputs_edge_iff h,
      fun _ _ _ => run_next_of_enables⟩
  · intro limits budget err h
    rcases g.explore_error_cases r h with ⟨e, rfl, hwhere⟩
    refine ⟨e, rfl, hwhere, ?_⟩
    rintro action rfl
    exact inapplicableEffect_of_explore h
  · intro limits budget action h
    rcases inapplicableEffect_of_explore h with ⟨env, text, heffect | hholds⟩
    · exact Registry.standard_effect_ne_inapplicableEffect text heffect
    · exact Registry.standard_holds_ne_inapplicableEffect text hholds

/-- A registry whose one action handler takes every action for inapplicable, and reports it
    instead of declining. -/
def reluctant : Registry Id where
  actions :=
    [{ recognizes := fun _ => true, effect := fun _ text => throw (.inapplicableEffect text) }]
  conditions := Registry.standard.conditions
  rendezvous := []

/-- A graph with one edge that nothing guards. -/
def crossing : ProgramGraph String where
  name := "crossing"
  locations := .ofList ["near", "far"]
  initial := .ofList ["near"]
  edges := [⟨"near", "", "go", "far"⟩]
  initializations := []

theorem crossing_reports_inapplicableEffect :
    ((crossing.dynamics reluctant).explore .unbounded 1).run =
        .error (.eval (.inapplicableEffect "go")) ∧
      ¬ ∀ (g : ProgramGraph String) (r : Registry Id) (limits : Limits) (budget : Nat)
        (action : String), ((g.dynamics r).explore limits budget).run ≠
          .error (.eval (.inapplicableEffect action)) := by
  have hrun : ((crossing.dynamics reluctant).explore .unbounded 1).run =
      .error (.eval (.inapplicableEffect "go")) := by
    show @Eq (Except _ _) _ _
    decide +kernel
  exact ⟨hrun, fun hnever => hnever _ _ _ _ _ hrun⟩

end ProgramGraph

end Interleaving
