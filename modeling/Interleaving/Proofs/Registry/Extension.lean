import Interleaving.Dynamics.ChannelSystem
import Interleaving.Proofs.Exploration.Portrait
import Interleaving.Proofs.Exploration.Substitution
import Interleaving.Registry.Named
import Interleaving.Registry.Script

/-!
# Registering Further Handlers

The first handler that recognizes a text decides what it means. So a handler that is
registered after others is asked about the texts that none of them recognizes, and about
nothing else, however many texts it would recognize. Without it such a text fails, and that
failure is the only thing it can change.

This holds of one text, and it goes up through everything that is made of texts: the
sequences that set up variables, the edges of a graph, the moves of a channel system, and the
whole exploration. Which texts are looked up at all depends on guards that hold and effects
that are enabled, and these are the same on both sides for as long as nothing has
failed.

Rendezvous handlers are left out of this. They tell which actions wait for a partner, and one
more of them can make an action wait that did not.

## Main definitions

* `Registry.extend`: A registry with further handlers after its own.
* `EvalError.Unrecognized`: The failures that further handlers may repair.
* `Explore.Stands`: The result of an exploration is that of another one.

## Theorems

* `Registry.effect_extend`, `Registry.holds_extend`: One text.
* `ProgramGraph.dynamics_extend`, `ChannelSystem.dynamics_extend`: The state spaces.
* `explore_ignores_later_handlers`: Explorations stand when further handlers are registered.
-/

namespace Interleaving

/-- A registry with further handlers for actions and conditions after its own. -/
def Registry.extend {m : Type → Type} (r : Registry m) (actions : List (ActionHandler m))
    (conditions : List (ConditionHandler m)) : Registry m :=
  { r with actions := r.actions ++ actions, conditions := r.conditions ++ conditions }

/-- No handler recognized some text. -/
inductive EvalError.Unrecognized : EvalError → Prop where
  | action (text : String) : Unrecognized (.unrecognizedAction text)
  | condition (text : String) : Unrecognized (.unrecognizedCondition text)

open EvalError

variable {L : Type} (r : Registry Id) (actions : List (ActionHandler Id))
  (conditions : List (ConditionHandler Id))

namespace Registry

theorem effect_extend (env : Environment) (action : String) :
    SameUnless Unrecognized (r.effect env action)
      ((r.extend actions conditions).effect env action) := by
  cases hfind : r.actions.find? (·.recognizes action) with
  | none =>
      -- The text fails, and what the further handlers make of it does not matter.
      refine .excused ?_ (.action action)
      rw [effect, hfind]
      rfl
  | some handler =>
      -- The first handler of a list is the first one of every longer list.
      refine .same ?_
      rw [effect, effect, extend, List.find?_append, hfind, Option.some_or]

theorem holds_extend (env : Environment) (condition : String) :
    SameUnless Unrecognized (r.holds env condition)
      ((r.extend actions conditions).holds env condition) := by
  cases hfind : r.conditions.find? (·.recognizes condition) with
  | none =>
      refine .excused ?_ (.condition condition)
      rw [holds, hfind]
      rfl
  | some handler =>
      refine .same ?_
      rw [holds, holds, extend, List.find?_append, hfind, Option.some_or]

theorem runInitialization_extend (env : Environment) (texts : List String) :
    SameUnless Unrecognized (r.runInitialization env texts)
      ((r.extend actions conditions).runInitialization env texts) :=
  .foldlM (fun env text => (r.effect_extend actions conditions env text).before _) texts env

theorem bothHold_extend (env : Environment) (first second : String) :
    SameUnless Unrecognized (r.bothHold env first second)
      ((r.extend actions conditions).bothHold env first second) := by
  refine (r.holds_extend actions conditions env first).bind fun b => ?_
  exact .ite (r.holds_extend actions conditions env second) (.refl _)

theorem edgeEffect_extend (env : Environment) (e : Edge L) :
    SameUnless Unrecognized (r.edgeEffect env e)
      ((r.extend actions conditions).edgeEffect env e) := by
  refine (r.holds_extend actions conditions env e.guard).bind fun b => ?_
  exact .ite (r.effect_extend actions conditions env e.action) (.refl _)

end Registry

namespace ProgramGraph

variable (g : ProgramGraph L)

theorem initialStates_extend :
    SameUnless Unrecognized (g.initialStates r)
      (g.initialStates (r.extend actions conditions)) := by
  have henvironments : SameUnless Unrecognized (g.initialEnvironments r)
      (g.initialEnvironments (r.extend actions conditions)) :=
    .ite (.refl _) (.mapM (r.runInitialization_extend actions conditions .empty) _)
  exact henvironments.before _

theorem next_extend (s : ProgramState L) (i : Input) :
    SameUnless Unrecognized (g.next r s i) (g.next (r.extend actions conditions) s i) := by
  refine .after _ fun e => ?_
  exact (r.effect_extend actions conditions s.env e.action).before _

/-- The state space of a graph gives the same answers. -/
theorem dynamics_extend [DecidableEq L] :
    (g.dynamics r).KeptBy Unrecognized (g.dynamics (r.extend actions conditions)) where
  initial := g.initialStates_extend r actions conditions
  inputs := by
    intro s
    refine .before (.mapM ?_ _) _
    intro index
    -- The edge is looked up in the graph, and so it is the same.
    refine .after _ fun e => ?_
    exact (r.edgeEffect_extend actions conditions s.env e).before _
  next := g.next_extend r actions conditions
  action_eq := rfl
  labels_eq := rfl

end ProgramGraph

namespace ChannelSystem

variable (c : ChannelSystem L) (s : SystemState L) (i : Nat)

theorem initialStates_extend :
    SameUnless Unrecognized (c.initialStates r)
      (c.initialStates (r.extend actions conditions)) :=
  (r.runInitialization_extend actions conditions .empty c.initializationActions).before _

theorem interleave_extend (e : Edge L) :
    SameUnless Unrecognized (interleave r s i e)
      (interleave (r.extend actions conditions) s i e) :=
  (r.edgeEffect_extend actions conditions s.env e).before _

-- Which actions wait for a partner, which pairs match and what a pair does is up to the
-- rendezvous handlers, and these are the same. Only the guards are looked up anew.
theorem meet_extend (e : Edge L) (j : Nat) (p : Edge L) :
    SameUnless Unrecognized (meet r s i e j p)
      (meet (r.extend actions conditions) s i e j p) := by
  refine .ite ?_ (.refl _)
  exact (r.bothHold_extend actions conditions s.env e.guard p.guard).before _

variable [DecidableEq L]

theorem rendezvous_extend (e : Edge L) :
    SameUnless Unrecognized (c.rendezvous r s i e)
      (c.rendezvous (r.extend actions conditions) s i e) := by
  refine .before (.mapM ?_ _) _
  intro place
  -- The partners are edges of the graphs, and so they are the same.
  refine .after _ fun partners => .before (.mapM ?_ partners) _
  exact meet_extend r actions conditions s i e place.2

theorem movesOf_extend (location : L) :
    SameUnless Unrecognized (c.movesOf r s i location)
      (c.movesOf (r.extend actions conditions) s i location) := by
  refine .after _ fun edges => .before (.mapM ?_ edges) _
  intro e
  exact .ite (c.rendezvous_extend r actions conditions s i e)
    (interleave_extend r actions conditions s i e)

/-- The state space of a channel system gives the same answers. -/
theorem dynamics_extend :
    (c.dynamics r).KeptBy Unrecognized (c.dynamics (r.extend actions conditions)) where
  initial := c.initialStates_extend r actions conditions
  inputs := by
    intro s
    refine .before (.mapM ?_ _) _
    intro place
    exact c.movesOf_extend r actions conditions s place.2 place.1
  next := fun _ _ => .refl _
  action_eq := rfl
  labels_eq := rfl

end ChannelSystem

/-- The result of the first exploration is that of the second one. So is its failure, unless
    some text was not recognized. -/
structure Explore.Stands {σ α : Type} (x y : Explore Id σ α) : Prop where
  ok : ∀ found, x.run = .ok found → y.run = .ok found
  error : ∀ err, x.run = .error err → (∀ text, err ≠ .eval (.unrecognizedAction text)) →
    (∀ text, err ≠ .eval (.unrecognizedCondition text)) → y.run = .error err

theorem Explore.Stands.of_sameUnless {σ α : Type} {x y : Explore Id σ α}
    (h : SameUnless (ExplorationError.Excused Unrecognized) x y) : Explore.Stands x y where
  ok := by
    intro found hx
    rw [← hx]
    refine h.run_eq ?_
    intro err herr
    rw [hx] at herr
    cases herr
  error := by
    intro err hx haction hcondition
    rw [← hx]
    refine h.run_eq ?_
    intro err' herr hexcused
    rw [hx] at herr
    cases herr
    rcases hexcused with ⟨e, rfl, he⟩
    cases he with
    | action text => exact haction text rfl
    | condition text => exact hcondition text rfl

/-- Handlers that are registered after others change nothing about an exploration that comes
    to an end without them, unless it ended because a text was not recognized. -/
theorem explore_ignores_later_handlers [DecidableEq L] (limits : Limits) (budget : Nat) :
    (∀ g : ProgramGraph L,
      Explore.Stands ((g.dynamics r).explore limits budget)
        ((g.dynamics (r.extend actions conditions)).explore limits budget)) ∧
    ∀ c : ChannelSystem L,
      Explore.Stands ((c.dynamics r).explore limits budget)
        ((c.dynamics (r.extend actions conditions)).explore limits budget) := by
  constructor
  · intro g
    exact .of_sameUnless ((g.dynamics_extend r actions conditions).explore limits budget)
  · intro c
    exact .of_sameUnless ((c.dynamics_extend r actions conditions).explore limits budget)

/-- A process that divides by a number which it counts down to zero. -/
def ProgramGraph.divider : ProgramGraph String where
  name := "divider"
  locations := .ofList ["on"]
  initial := .ofList ["on"]
  edges := [⟨"on", "n<3", "m:=6/n;n:=n-1", "on"⟩]
  initializations := [["n:=2"]]

/-- The divider, alone and next to another one, up to the limit and into its failure. The later
    handlers claim every action and deny the guard. -/
theorem divider_ignores_later_handlers :
    let r : Registry Id := Registry.standard
    let r' := r.extend [.claim "late"] [.constant "n<3" false]
    let g := ProgramGraph.divider
    let c : ChannelSystem String := ⟨[g, g]⟩
    (∃ found, ((g.dynamics r).explore ⟨some 2, none⟩ 2).run = .ok (some found) ∧
      ((g.dynamics r').explore ⟨some 2, none⟩ 2).run = .ok (some found) ∧
      found.outcome = .depthLimit) ∧
    ((g.dynamics r).explore .unbounded 3).run = .error (.eval .divisionByZero) ∧
    ((g.dynamics r').explore .unbounded 3).run = .error (.eval .divisionByZero) ∧
    (∃ found, ((c.dynamics r).explore ⟨none, some 2⟩ 2).run = .ok (some found) ∧
      ((c.dynamics r').explore ⟨none, some 2⟩ 2).run = .ok (some found) ∧
      found.outcome = .stateLimit) ∧
    ((c.dynamics r).explore .unbounded 3).run = .error (.eval .divisionByZero) ∧
    ((c.dynamics r').explore .unbounded 3).run = .error (.eval .divisionByZero) := by
  intro r r' g c
  have hlimited := explore_ignores_later_handlers (L := String) r [.claim "late"]
    [.constant "n<3" false] ⟨some 2, none⟩ 2
  have hfull := explore_ignores_later_handlers (L := String) r [.claim "late"]
    [.constant "n<3" false] ⟨none, some 2⟩ 2
  have hunbounded := explore_ignores_later_handlers (L := String) r [.claim "late"]
    [.constant "n<3" false] .unbounded 3
  have hgraph : ((g.dynamics r).explore .unbounded 3).run = .error (.eval .divisionByZero) := by
    show @Eq (Except (ExplorationError (ProgramState String) String String)
      (Option (Exploration (ProgramState String)))) _ _
    decide +kernel
  have hsystem : ((c.dynamics r).explore .unbounded 3).run = .error (.eval .divisionByZero) := by
    show @Eq (Except (ExplorationError (SystemState String) String String)
      (Option (Exploration (SystemState String)))) _ _
    decide +kernel
  have hgraphEnding :
      ((g.dynamics r).explore ⟨some 2, none⟩ 2).ending? = some (.depthLimit, 2) := by
    decide +kernel
  have hsystemEnding :
      ((c.dynamics r).explore ⟨none, some 2⟩ 2).ending? = some (.stateLimit, 1) := by
    decide +kernel
  rcases Explore.exists_of_ending? hgraphEnding with ⟨found, hfound, houtcome, -⟩
  rcases Explore.exists_of_ending? hsystemEnding with ⟨found', hfound', houtcome', -⟩
  refine ⟨⟨found, hfound, (hlimited.1 g).ok _ hfound, houtcome⟩, hgraph, ?_,
    ⟨found', hfound', (hfull.2 c).ok _ hfound', houtcome'⟩, hsystem, ?_⟩
  · exact (hunbounded.1 g).error _ hgraph nofun nofun
  · exact (hunbounded.2 c).error _ hsystem nofun nofun

end Interleaving
