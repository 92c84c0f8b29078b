import Interleaving.Proofs.ChannelSystem.Steps
import Interleaving.Proofs.Script.Kinds
import Interleaving.Proofs.Script.Variables

/-!
# Independent Steps

Two processes that take ordinary actions disturb each other only through the variables.
If neither action assigns a variable that occurs in the guard or the action of the other
edge, then each edge stays enabled when the other is taken first, and both orders lead to
the same state. The environments agree because the actions commute, the locations because
they belong to different processes.

Variables are those of the texts: a guard and an action are read, and what they are read
as says which names occur. A text that is not read has none, but then the edge is not
enabled either.

## Main definitions

* `Edge.Spares`: An edge assigns nothing that occurs in another.
* `ChannelSystem.Enabled`: A process can take an edge alone.

## Theorems

* `run_standard_holds_of_spares`: A guard holds after an action that spares it.
* `run_standard_effect_comm`: Actions that spare each other may change places.
* `ChannelSystem.Enabled.mem_moves`: What is enabled is among the moves.
* `ChannelSystem.enabled_diamond`: Independent edges may be taken in either order.
-/

namespace Interleaving

open Script

variable {L : Type}

namespace Script

/-- The variables that occur in a condition. -/
def conditionNames (condition : String) : List String :=
  ((Expr.parse? condition).map Expr.names).getD []

/-- The variables that occur in an action. -/
def actionNames (action : String) : List String :=
  ((Statement.parse? action).map (·.flatMap Statement.names)).getD []

/-- The variables that an action assigns. -/
def assignedNames (action : String) : List String :=
  ((Statement.parse? action).map Statement.targets).getD []

end Script

/-- The first edge assigns nothing that occurs in the guard or the action of the second. -/
def Edge.Spares (e p : Edge L) : Prop :=
  ∀ name ∈ assignedNames e.action, name ∉ conditionNames p.guard ∧ name ∉ actionNames p.action

instance (e p : Edge L) : Decidable (e.Spares p) :=
  inferInstanceAs (Decidable (∀ name ∈ assignedNames e.action, _))

section Standard

variable {env first second : Environment} {condition a b : String}

/-- What a condition says does not change with an action that assigns none of its
    variables. -/
theorem run_standard_holds_of_spares {answer : Bool}
    (h : ∀ name ∈ assignedNames a, name ∉ conditionNames condition)
    (hholds : ((Registry.standard : Registry Id).holds env condition).run = .ok answer)
    (heffect : ((Registry.standard : Registry Id).effect env a).run = .ok (some first)) :
    ((Registry.standard : Registry Id).holds first condition).run = .ok answer := by
  rcases run_standard_effect_eq_ok_iff.mp heffect with ⟨ss, hparse, hrun⟩
  rw [run_standard_holds_eq_ok_iff] at hholds ⊢
  rcases hholds with hblank | ⟨hblank, e, hcondition, he⟩
  · exact Or.inl hblank
  · refine Or.inr ⟨hblank, e, hcondition, ?_⟩
    simp only [assignedNames, conditionNames, hparse, hcondition, Option.map_some,
      Option.getD_some] at h
    rw [← Expr.holds_congr, he]
    intro name hname
    exact (Statement.get?_of_run hrun fun htarget => h name htarget hname).symm

/-- Actions that assign none of each other's variables may change places. -/
theorem run_standard_effect_comm (hab : ∀ name ∈ assignedNames a, name ∉ actionNames b)
    (hba : ∀ name ∈ assignedNames b, name ∉ actionNames a)
    (ha : ((Registry.standard : Registry Id).effect env a).run = .ok (some first))
    (hb : ((Registry.standard : Registry Id).effect env b).run = .ok (some second)) :
    ∃ last, ((Registry.standard : Registry Id).effect first b).run = .ok (some last) ∧
      ((Registry.standard : Registry Id).effect second a).run = .ok (some last) := by
  rcases run_standard_effect_eq_ok_iff.mp ha with ⟨ss, hss, hfirst⟩
  rcases run_standard_effect_eq_ok_iff.mp hb with ⟨ts, hts, hsecond⟩
  simp only [assignedNames, actionNames, hss, hts, Option.map_some, Option.getD_some] at hab hba
  rcases Statement.run_comm hab hba hfirst hsecond with ⟨last, hlast, hlast'⟩
  exact ⟨last, run_standard_effect_eq_ok_iff.mpr ⟨ts, hts, hlast⟩,
    run_standard_effect_eq_ok_iff.mpr ⟨ss, hss, hlast'⟩⟩

end Standard

namespace ChannelSystem

/-- A process can take an edge alone, from one state to another: the edge leaves its
    location, the action is ordinary, and interleaving finds the move. -/
structure Enabled (c : ChannelSystem L) (s : SystemState L) (o : Offer L) (t : SystemState L) :
    Prop where
  mem_edges : ∃ g, c.processes[o.process]? = some g ∧ o.edge ∈ g.edges
  source_eq : s.locations[o.process]? = some o.edge.source
  ordinary : (Registry.standard : Registry Id).isOneSided o.edge.action = false
  run_interleave : (interleave (Registry.standard : Registry Id) s o.process o.edge).run =
    .ok [⟨t, o.edge.action⟩]

/-- Interleaving finds a move if the guard holds and the action is enabled. -/
theorem run_interleave_eq_ok_iff {r : Registry Id} {s t : SystemState L} {i : Nat} {e : Edge L}
    {action : String} : (interleave r s i e).run = .ok [⟨t, action⟩] ↔
      (r.holds s.env e.guard).run = .ok true ∧
        (r.effect s.env e.action).run = .ok (some t.env) ∧
        t.locations = s.locations.set i e.target ∧ action = e.action := by
  unfold interleave Registry.edgeEffect
  constructor
  · intro h
    rcases run_bind_eq_ok_iff.mp h with ⟨env?, hedge, hmove⟩
    rcases run_guarded_eq_ok_iff.mp hedge with ⟨hguard, heffect⟩ | ⟨-, rfl⟩
    · cases env? with
      | none => cases hmove
      | some env =>
          cases hmove
          exact ⟨hguard, heffect, rfl, rfl⟩
    · cases hmove
  · intro h
    rcases h with ⟨hguard, heffect, hlocations, rfl⟩
    rcases t with ⟨locations, env⟩
    cases hlocations
    exact run_bind_eq_ok_iff.mpr
      ⟨some env, run_guarded_eq_ok_iff.mpr (Or.inl ⟨hguard, heffect⟩), rfl⟩

namespace Enabled

variable {c : ChannelSystem L} {s t : SystemState L} {o : Offer L}

theorem fits (h : c.Enabled s o t) (hs : s.Fits c) : t.Fits c := by
  rcases run_interleave_eq_ok_iff.mp h.run_interleave with ⟨-, -, hlocations, -⟩
  rw [SystemState.Fits, hlocations, List.length_set]
  exact hs

/-- What is enabled is among the moves, once these are there. -/
theorem mem_moves [DecidableEq L] (h : c.Enabled s o t) (hs : s.Fits c) {moves : List (Move L)}
    (hmoves : (c.moves (Registry.standard : Registry Id) s).run = .ok moves) :
    ⟨t, o.edge.action⟩ ∈ moves := by
  rcases run_interleave_eq_ok_iff.mp h.run_interleave with ⟨hguard, heffect, hlocations, -⟩
  refine (mem_moves_iff hs hmoves).mpr
    ⟨o, mem_offers_iff.mpr ⟨h.mem_edges, h.source_eq⟩, Or.inl ?_⟩
  refine Offer.alone?_eq_some_iff.mpr ⟨h.ordinary, hguard, t.env, heffect, ?_⟩
  rw [← hlocations]

end Enabled

/-- After an edge of another process that spares it, an edge is still enabled if its action
    has an effect. -/
theorem Enabled.after {c : ChannelSystem L} {s t u v : SystemState L} {o p : Offer L}
    (ho : c.Enabled s o t) (hp : c.Enabled s p u) (hne : o.process ≠ p.process)
    (hspares : o.edge.Spares p.edge)
    (heffect : ((Registry.standard : Registry Id).effect t.env p.edge.action).run =
      .ok (some v.env))
    (hlocations : v.locations = t.locations.set p.process p.edge.target) : c.Enabled t p v where
  mem_edges := hp.mem_edges
  source_eq := by
    rcases run_interleave_eq_ok_iff.mp ho.run_interleave with ⟨-, -, ht, -⟩
    rw [ht, List.getElem?_set_ne hne, hp.source_eq]
  ordinary := hp.ordinary
  run_interleave := by
    rcases run_interleave_eq_ok_iff.mp ho.run_interleave with ⟨-, ht, -, -⟩
    rcases run_interleave_eq_ok_iff.mp hp.run_interleave with ⟨hguard, -, -, -⟩
    have hguard' := run_standard_holds_of_spares (fun name hname => (hspares name hname).1)
      hguard ht
    exact run_interleave_eq_ok_iff.mpr ⟨hguard', heffect, hlocations, rfl⟩

/-- Ordinary edges of two processes that are enabled in one state and assign nothing that
    occurs in the other may be taken in either order: each is enabled after the other, and
    both orders lead to the same state. Where the moves of the three states are found, these
    four steps are among them. -/
theorem enabled_diamond [DecidableEq L] (c : ChannelSystem L) (s first second : SystemState L)
    (o p : Offer L) (hs : s.Fits c) (hne : o.process ≠ p.process) (ho : c.Enabled s o first)
    (hp : c.Enabled s p second) (hop : o.edge.Spares p.edge) (hpo : p.edge.Spares o.edge) :
    ∃ last, c.Enabled first p last ∧ c.Enabled second o last ∧
      ∀ moves movesFirst movesSecond,
        (c.moves (Registry.standard : Registry Id) s).run = .ok moves →
        (c.moves (Registry.standard : Registry Id) first).run = .ok movesFirst →
        (c.moves (Registry.standard : Registry Id) second).run = .ok movesSecond →
        ⟨first, o.edge.action⟩ ∈ moves ∧ ⟨second, p.edge.action⟩ ∈ moves ∧
          ⟨last, p.edge.action⟩ ∈ movesFirst ∧ ⟨last, o.edge.action⟩ ∈ movesSecond := by
  rcases run_interleave_eq_ok_iff.mp ho.run_interleave with ⟨-, hfirst, hfirstLocations, -⟩
  rcases run_interleave_eq_ok_iff.mp hp.run_interleave with ⟨-, hsecond, hsecondLocations, -⟩
  rcases run_standard_effect_comm (fun name hname => (hop name hname).2)
    (fun name hname => (hpo name hname).2) hfirst hsecond with ⟨env, hlast, hlast'⟩
  -- The two processes put their locations at different places.
  have hlocations : (s.locations.set o.process o.edge.target).set p.process p.edge.target =
      (s.locations.set p.process p.edge.target).set o.process o.edge.target :=
    List.set_comm _ _ hne
  let last : SystemState L :=
    ⟨(s.locations.set o.process o.edge.target).set p.process p.edge.target, env⟩
  have hpLast : c.Enabled first p last :=
    ho.after hp hne hop hlast (by rw [hfirstLocations])
  have hoLast : c.Enabled second o last :=
    hp.after ho hne.symm hpo hlast' (by rw [hsecondLocations, ← hlocations])
  refine ⟨last, hpLast, hoLast, ?_⟩
  intro moves movesFirst movesSecond hmoves hmovesFirst hmovesSecond
  exact ⟨ho.mem_moves hs hmoves, hp.mem_moves hs hmoves, hpLast.mem_moves (ho.fits hs) hmovesFirst,
    hoLast.mem_moves (hp.fits hs) hmovesSecond⟩

/-- A process that counts up to a bound, and one that doubles a number of its own. -/
def tandem : ChannelSystem String where
  processes :=
    [⟨"counter", .ofList ["on"], .ofList ["on"], [⟨"on", "x<2", "x:=x+1", "on"⟩], [["x:=0"]]⟩,
      ⟨"doubler", .ofList ["low", "high"], .ofList ["low"],
        [⟨"low", "y>0", "z:=y; y:=z*2", "high"⟩], [["y:=1"]]⟩]

/-- The counter and the doubler have no variable in common. -/
theorem tandem_enabled_diamond :
    let r : Registry Id := Registry.standard
    let o : Offer String := ⟨0, ⟨"on", "x<2", "x:=x+1", "on"⟩⟩
    let p : Offer String := ⟨1, ⟨"low", "y>0", "z:=y; y:=z*2", "high"⟩⟩
    let start : SystemState String := ⟨["on", "low"], .ofList [("x", .int 0), ("y", .int 1)]⟩
    let first : SystemState String := ⟨["on", "low"], .ofList [("x", .int 1), ("y", .int 1)]⟩
    let second : SystemState String :=
      ⟨["on", "high"], .ofList [("x", .int 0), ("y", .int 2), ("z", .int 1)]⟩
    start.Fits tandem ∧ tandem.Enabled start o first ∧ tandem.Enabled start p second ∧
      o.edge.Spares p.edge ∧ p.edge.Spares o.edge ∧
      ∃ last moves movesFirst movesSecond,
        tandem.Enabled first p last ∧ tandem.Enabled second o last ∧
        (tandem.moves r start).run = .ok moves ∧ (tandem.moves r first).run = .ok movesFirst ∧
        (tandem.moves r second).run = .ok movesSecond ∧
        ⟨first, o.edge.action⟩ ∈ moves ∧ ⟨second, p.edge.action⟩ ∈ moves ∧
        ⟨last, p.edge.action⟩ ∈ movesFirst ∧ ⟨last, o.edge.action⟩ ∈ movesSecond := by
  intro r o p start first second
  have hs : start.Fits tandem := rfl
  have ho : tandem.Enabled start o first :=
    ⟨⟨_, rfl, List.mem_singleton.mpr rfl⟩, rfl, by decide +kernel,
      run_eq_ok_of_toOption (by decide +kernel)⟩
  have hp : tandem.Enabled start p second :=
    ⟨⟨_, rfl, List.mem_singleton.mpr rfl⟩, rfl, by decide +kernel,
      run_eq_ok_of_toOption (by decide +kernel)⟩
  have hop : o.edge.Spares p.edge := by decide +kernel
  have hpo : p.edge.Spares o.edge := by decide +kernel
  rcases Option.isSome_iff_exists.mp
    (by decide +kernel : (tandem.moves r start).run.toOption.isSome = true) with ⟨moves, hmoves⟩
  rcases Option.isSome_iff_exists.mp
    (by decide +kernel : (tandem.moves r first).run.toOption.isSome = true) with
      ⟨movesFirst, hmovesFirst⟩
  rcases Option.isSome_iff_exists.mp
    (by decide +kernel : (tandem.moves r second).run.toOption.isSome = true) with
      ⟨movesSecond, hmovesSecond⟩
  rcases enabled_diamond tandem start first second o p hs (by decide) ho hp hop hpo with
    ⟨last, hpLast, hoLast, hlisted⟩
  exact ⟨hs, ho, hp, hop, hpo, last, moves, movesFirst, movesSecond, hpLast, hoLast,
    run_eq_ok_of_toOption hmoves, run_eq_ok_of_toOption hmovesFirst,
    run_eq_ok_of_toOption hmovesSecond, hlisted moves movesFirst movesSecond
      (run_eq_ok_of_toOption hmoves) (run_eq_ok_of_toOption hmovesFirst)
      (run_eq_ok_of_toOption hmovesSecond)⟩

end ChannelSystem

end Interleaving
