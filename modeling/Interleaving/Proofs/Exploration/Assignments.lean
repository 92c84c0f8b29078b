import Interleaving.Proofs.ChannelSystem.Symmetry
import Interleaving.Proofs.Exploration.Soundness
import Interleaving.Proofs.ProgramGraph.Steps
import Interleaving.Proofs.Reordering
import Interleaving.Proofs.Script.Kinds
import Interleaving.Proofs.Script.Rendezvous
import Interleaving.Proofs.Script.Variables

/-!
# Labels Say What Is Assigned

Under the standard registry a label is a text that can be read again, and it says all that
its step does to the environment. An action assigns its targets, one after the other, and a
rendezvous assigns the target of its receiver, so both are a list of statements, and what a
list of statements does can be said for each name by itself: a target has the value of its
last assignment, which saw what the earlier ones did, and every other name has the value it
had.

No statement takes a binding away. Along a route through what an exploration has found, then,
what is bound stays bound, and a value that is not what it was has been assigned by a label on
the way.

## Main definitions

* `Script.Statement.GivesLast`: The value of the last assignment of a name.
* `Script.Statement.Does`: What statements do to an environment, name by name.
* `Script.labelStatements`: The statements that a label stands for.
* `TransitionSystem.Route`: Transitions of a system, one after the other.
* `TransitionSystem.AssignsAsLabelled`: Environments change along transitions as their labels
  say.

## Theorems

* `Script.Statement.does_of_run`: Statements that run do what `Does` says.
* `ProgramGraph.run_labelStatements_of_leads`, `ChannelSystem.run_labelStatements_of_leads`: A
  step runs the statements of its label.
* `TransitionSystem.Route.isSome_get?_iff`, `TransitionSystem.Route.exists_changing`: What
  happens to a name along a route.
* `explore_assigns_as_labelled`: Labels say what is assigned in every exploration.
-/

namespace Interleaving

namespace Script

namespace Statement

/-- The last assignment of a name, evaluated after the statements before it, gives this value. -/
def GivesLast (ss : List Statement) (env : Environment) (name : String) (v : Value) : Prop :=
  ∃ before value after mid, ss = before ++ .assign name value :: after ∧
    name ∉ targets after ∧ run before env = .ok mid ∧ value.eval mid = .ok v

/-- What statements do to an environment, name by name. -/
structure Does (ss : List Statement) (env out : Environment) : Prop where
  bound_iff : ∀ name, (out.get? name).isSome ↔ (env.get? name).isSome ∨ name ∈ targets ss
  kept : ∀ name, name ∉ targets ss → out.get? name = env.get? name
  assigned : ∀ name ∈ targets ss, ∃ v, GivesLast ss env name v ∧ out.get? name = some v

variable {ss : List Statement} {env out : Environment} {name : String}

/-- A name that is assigned has the value of its last assignment. -/
theorem exists_givesLast (h : run ss env = .ok out) (hname : name ∈ targets ss) :
    ∃ v, GivesLast ss env name v ∧ out.get? name = some v := by
  induction ss generalizing env with
  | nil => cases hname
  | cons s rest ih =>
      rcases run_cons_eq_ok_iff.mp h with ⟨mid, hstep, hrest⟩
      by_cases hlater : name ∈ targets rest
      · -- The first statement is one of those before the last assignment.
        rcases ih hrest hlater with ⟨v, ⟨before, value, after, mid', hsplit, hlast, hrun, hv⟩, hout⟩
        have hbefore : run (s :: before) env = .ok mid' :=
          run_cons_eq_ok_iff.mpr ⟨mid, hstep, hrun⟩
        exact ⟨v, ⟨s :: before, value, after, mid', congrArg _ hsplit, hlast, hbefore, hv⟩, hout⟩
      · -- The first statement assigns the name, and the others leave it alone.
        have htarget : s.target? = some name := by
          rcases mem_targets_iff.mp hname with ⟨s', hs', hs'name⟩
          rcases List.mem_cons.mp hs' with rfl | hs'
          · exact hs'name
          · exact absurd (mem_targets_iff.mpr ⟨s', hs', hs'name⟩) hlater
        cases s with
        | skip => cases htarget
        | assign target value =>
            cases htarget
            rcases bind_eq_ok_iff.mp hstep with ⟨v, hv, hmid⟩
            rw [pure_eq_ok_iff] at hmid
            refine ⟨v, ⟨[], value, rest, env, rfl, hlater, rfl, hv⟩, ?_⟩
            rw [get?_of_run hrest hlater, ← hmid, Environment.get?_insert, if_pos rfl]

/-- Statements that run do what they say. -/
theorem does_of_run (h : run ss env = .ok out) : Does ss env out where
  bound_iff := by
    intro name
    by_cases hname : name ∈ targets ss
    · rcases exists_givesLast h hname with ⟨v, -, hv⟩
      simp [hv, hname]
    · simp [get?_of_run h hname, hname]
  kept := fun name => get?_of_run h
  assigned := fun name => exists_givesLast h

end Statement

/-- The statements that a label stands for. A rendezvous assigns what was sent to the target of
    the receiver. -/
def labelStatements (label : String) : List Statement :=
  match Statement.parse? label, exchange? label with
  | some statements, _ => statements
  | none, some (value, target) => [.assign target value]
  | none, none => []

/-- The variables that a label assigns. -/
def labelTargets (label : String) : List String :=
  Statement.targets (labelStatements label)

section Labels

variable {env out : Environment} {label : String}

theorem run_labelStatements_of_effect
    (h : ((Registry.standard : Registry Id).effect env label).run = .ok (some out)) :
    Statement.run (labelStatements label) env = .ok out := by
  rcases run_standard_effect_eq_ok_iff.mp h with ⟨ss, hparse, hrun⟩
  rw [labelStatements, hparse]
  exact hrun

theorem parse?_eq_none_of_exchange? {value : Expr} {target : String}
    (h : exchange? label = some (value, target)) : Statement.parse? label = none := by
  rw [← Option.not_isSome_iff_eq_none]
  intro haction
  -- The text would be of two kinds.
  rcases Option.bind_eq_some_iff.mp h with ⟨pair, hpair, -⟩
  have hkind : Kind.rendezvous.reads label = true := Option.isSome_iff_exists.mpr ⟨pair, hpair⟩
  have hkind' : Kind.action.reads label = true := haction
  cases Kind.eq_of_reads hkind hkind'

theorem run_labelStatements_of_rendezvousEffect
    (h : ((Registry.standard : Registry Id).rendezvousEffect env label).run = .ok (some out)) :
    Statement.run (labelStatements label) env = .ok out := by
  rcases run_standard_rendezvousEffect_eq_ok_iff.mp h with ⟨value, target, v, hexchange, hv, hout⟩
  rw [labelStatements, parse?_eq_none_of_exchange? hexchange, hexchange, ← hout]
  exact Statement.run_cons_eq_ok_iff.mpr ⟨_, bind_eq_ok_iff.mpr ⟨v, hv, rfl⟩, rfl⟩

end Labels

end Script

open Script

variable {σ ι L : Type}

namespace TransitionSystem

variable {system : TransitionSystem σ String String}

/-- Transitions of a system, one after the other. -/
inductive Route (system : TransitionSystem σ String String) :
    σ → List (Transition σ String) → σ → Prop where
  | stay (s : σ) : Route system s [] s
  | step {first : Transition σ String} {rest : List (Transition σ String)} {t : σ}
      (hfirst : first ∈ system.resolvedTransitions) (hrest : Route system first.target rest t) :
      Route system first.source (first :: rest) t

/-- Environments change along transitions as their labels say, and along routes nowhere else. -/
structure AssignsAsLabelled (system : TransitionSystem σ String String)
    (env : σ → Environment) : Prop where
  does : ∀ step ∈ system.resolvedTransitions,
    Statement.Does (labelStatements step.action) (env step.source) (env step.target)
  bound_iff : ∀ s route t, system.Route s route t → ∀ name,
    ((env t).get? name).isSome ↔
      ((env s).get? name).isSome ∨ ∃ step ∈ route, name ∈ labelTargets step.action
  changing : ∀ s route t, system.Route s route t → ∀ name,
    (env t).get? name ≠ (env s).get? name → ∃ step ∈ route, name ∈ labelTargets step.action ∧
      (env step.target).get? name ≠ (env step.source).get? name

variable {env : σ → Environment} {s t : σ} {route : List (Transition σ String)} {name : String}

namespace Route

variable (hdoes : ∀ step ∈ system.resolvedTransitions,
  Statement.Does (labelStatements step.action) (env step.source) (env step.target))

include hdoes

theorem isSome_get?_iff (h : system.Route s route t) :
    ((env t).get? name).isSome ↔
      ((env s).get? name).isSome ∨ ∃ step ∈ route, name ∈ labelTargets step.action := by
  induction h with
  | stay s => simp
  | step hfirst hrest ih =>
      rw [ih, (hdoes _ hfirst).bound_iff]
      simp only [List.mem_cons, exists_eq_or_imp, or_assoc]
      rfl

theorem exists_changing (h : system.Route s route t)
    (hname : (env t).get? name ≠ (env s).get? name) :
    ∃ step ∈ route, name ∈ labelTargets step.action ∧
      (env step.target).get? name ≠ (env step.source).get? name := by
  induction h with
  | stay s => exact absurd rfl hname
  | @step first rest t hfirst hrest ih =>
      by_cases hchange : (env first.target).get? name = (env first.source).get? name
      · -- The first transition leaves the name alone, so it changes on the rest of the route.
        rw [← hchange] at hname
        rcases ih hname with ⟨step, hstep, hlabel⟩
        exact ⟨step, List.mem_cons_of_mem _ hstep, hlabel⟩
      · refine ⟨first, List.mem_cons_self, ?_, hchange⟩
        by_contra hnot
        exact hchange ((hdoes first hfirst).kept name hnot)

end Route

/-- It is enough to look at the steps of the state space. -/
theorem Within.assignsAsLabelled [DecidableEq σ] {d : Dynamics Id σ ι} (h : system.Within d)
    (hrun : ∀ s action t, d.Reachable s → d.Leads s action t →
      Statement.run (labelStatements action) (env s) = .ok (env t)) :
    system.AssignsAsLabelled env := by
  have hdoes : ∀ step ∈ system.resolvedTransitions,
      Statement.Does (labelStatements step.action) (env step.source) (env step.target) := by
    intro step hstep
    rcases h.leads step hstep with ⟨hsource, hleads⟩
    exact Statement.does_of_run (hrun _ _ _ (h.reachable _ hsource) hleads)
  exact ⟨hdoes, fun s route t hroute name => Route.isSome_get?_iff hdoes hroute,
    fun s route t hroute name => Route.exists_changing hdoes hroute⟩

end TransitionSystem

theorem ProgramGraph.run_labelStatements_of_leads [DecidableEq L] {g : ProgramGraph L}
    {s t : ProgramState L} {action : String}
    (h : (g.dynamics (Registry.standard : Registry Id)).Leads s action t) :
    Statement.run (labelStatements action) s.env = .ok t.env := by
  rcases (leads_iff.mp h).2 with ⟨e, -, -, rfl, -, hafter⟩
  exact run_labelStatements_of_effect (Registry.run_effect_of_after? hafter)

theorem ChannelSystem.run_labelStatements_of_leads [DecidableEq L] {c : ChannelSystem L}
    {s t : SystemState L} {action : String} (hfits : s.Fits c)
    (h : (c.dynamics (Registry.standard : Registry Id)).Leads s action t) :
    Statement.run (labelStatements action) s.env = .ok t.env := by
  rcases ((leads_iff hfits).mp h).2 with ⟨o, -, halone | ⟨p, -, htogether⟩⟩
  · rcases Offer.alone?_eq_some_iff.mp halone with ⟨-, -, env, heffect, hmove⟩
    cases hmove
    exact run_labelStatements_of_effect heffect
  · rcases Offer.together?_eq_some_iff.mp htogether with ⟨-, -, -, env, heffect, hmove⟩
    cases hmove
    exact run_labelStatements_of_rendezvousEffect heffect

/-- In every exploration of a program graph or of a channel system, whatever its limits and
    however it ended, each transition does to the environment what its label says. After it
    the names are bound that were bound before and those that the label assigns. A name that
    it does not assign has the value it had, and one that it assigns has the value of its last
    assignment, evaluated after those before it. So along every route no name is ever unbound,
    and a name that has not the value it had was changed by a transition whose label assigns
    it. -/
theorem explore_assigns_as_labelled [DecidableEq L] (limits : Limits) (budget : Nat) :
    (∀ (g : ProgramGraph L) (found : Exploration (ProgramState L)),
      ((g.dynamics (Registry.standard : Registry Id)).explore limits budget).run =
        .ok (some found) → found.system.AssignsAsLabelled (·.env)) ∧
    ∀ (c : ChannelSystem L) (found : Exploration (SystemState L)),
      ((c.dynamics (Registry.standard : Registry Id)).explore limits budget).run =
        .ok (some found) → found.system.AssignsAsLabelled (·.env) := by
  constructor
  · intro g found hrun
    refine (Dynamics.within_of_explore hrun).assignsAsLabelled ?_
    intro s action t _ hst
    exact ProgramGraph.run_labelStatements_of_leads hst
  · intro c found hrun
    refine (Dynamics.within_of_explore hrun).assignsAsLabelled ?_
    intro s action t hs hst
    exact ChannelSystem.run_labelStatements_of_leads (ChannelSystem.fits_of_reachable hs) hst

/-- The counter assigns its number or nothing, and the handover the number of the taker or that
    of the giver. -/
theorem counter_and_handover_assign_as_labelled :
    let r : Registry Id := Registry.standard
    (∃ found, ((ProgramGraph.counter.dynamics r).explore .unbounded 5).run = .ok (some found) ∧
      found.system.actions.toList.map labelTargets = [["n"], []] ∧
      found.system.AssignsAsLabelled (·.env)) ∧
    ∃ found, ((ChannelSystem.handover.dynamics r).explore .unbounded 5).run = .ok (some found) ∧
      found.system.actions.toList.map labelTargets = [["m"], ["n"]] ∧
      found.system.AssignsAsLabelled (·.env) := by
  intro r
  have hcounter : ((ProgramGraph.counter.dynamics r).explore .unbounded 5).found?.map
      (·.system.actions.toList.map labelTargets) = some [["n"], []] := by
    decide +kernel
  have hhandover : ((ChannelSystem.handover.dynamics r).explore .unbounded 5).found?.map
      (·.system.actions.toList.map labelTargets) = some [["m"], ["n"]] := by
    decide +kernel
  rcases Option.map_eq_some_iff.mp hcounter with ⟨found, hfound, htargets⟩
  rcases Option.map_eq_some_iff.mp hhandover with ⟨found', hfound', htargets'⟩
  have h := explore_assigns_as_labelled (L := String) .unbounded 5
  exact ⟨⟨found, Explore.run_of_found? hfound, htargets,
      h.1 _ _ (Explore.run_of_found? hfound)⟩,
    found', Explore.run_of_found? hfound', htargets',
    h.2 _ _ (Explore.run_of_found? hfound')⟩

end Interleaving
