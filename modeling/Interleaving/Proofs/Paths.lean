import Interleaving.Proofs.Exploration.Soundness
import Interleaving.Proofs.Exploration.Termination
import Interleaving.Proofs.ProgramGraph.References
import Interleaving.Proofs.Registry.Reports
import Interleaving.Registry.Script

/-!
# Runs and the Paths of Their Processes

A state of a channel system is a tuple of locations, and a move puts one or two new
locations into it. Nothing in the tuple says which graph a location is from, so that each
place stays with its own process has to be seen from the moves: a process that takes an edge
takes one of its own graph, and its target is put where its source was. Along a run, then,
the locations at one place are a path in one graph, which begins at an initial location and
from then on stays or goes along an edge.

A graph that was assembled has every location on its edges. Its paths do not leave its
locations, and neither do the states that a run comes to. The tuple keeps its length, so
whatever is looked up by the number of a process is there.

This goes for every state that an exploration keeps, and also for those it has asked about
before it failed.

## Main definitions

* `Dynamics.Run`: A run with the states it has come through.
* `ProgramGraph.Path`: A path in a graph with the locations it has come through.
* `SystemState.Inside`: Every location of a state is one of its own process.
* `ChannelSystem.Displaces`: A step changes the places of those who take it.
* `ProgramGraph.StaysInside`, `ChannelSystem.StaysInside`: An exploration keeps to the graphs.

## Theorems

* `ProgramGraph.Path.mem_locations`: Paths stay among the locations.
* `ProgramGraph.path_of_run`: A run of a graph is a path.
* `ChannelSystem.displaces_of_leads`: What a step does to the tuple.
* `ChannelSystem.path_of_run`: In a run of a channel system each process takes a path.
* `explore_stays_inside`: Explorations of assembled graphs keep to them.
-/

namespace Interleaving

variable {σ ι L : Type}

/-- A run has come through the states `past`, in this order, and is in a state now. -/
inductive Dynamics.Run (d : Dynamics Id σ ι) : (past : List σ) → σ → Prop where
  | start {s : σ} (h : d.Starts s) : Run d [] s
  | step {past : List σ} {s t : σ} {action : String} (h : Run d past s)
      (hst : d.Leads s action t) : Run d (past ++ [s]) t

theorem Dynamics.reachable_iff_exists_run {d : Dynamics Id σ ι} {s : σ} :
    d.Reachable s ↔ ∃ past, d.Run past s := by
  constructor
  · intro h
    rcases h with ⟨n, hn⟩
    induction hn with
    | start hs => exact ⟨[], .start hs⟩
    | step _ hst ih =>
        rcases ih with ⟨past, hrun⟩
        exact ⟨_, hrun.step hst⟩
  · intro h
    rcases h with ⟨past, hrun⟩
    induction hrun with
    | start hs => exact ⟨0, .start hs⟩
    | step _ hst ih =>
        rcases ih with ⟨n, hn⟩
        exact ⟨n + 1, hn.step hst⟩

namespace ProgramGraph

variable {g : ProgramGraph L}

/-- A path begins at an initial location. At each step it stays where it is or goes along
    an edge. It has come through the locations `past`. -/
inductive Path (g : ProgramGraph L) : (past : List L) → L → Prop where
  | start {l : L} (h : l ∈ g.initial) : Path g [] l
  | stay {past : List L} {l : L} (h : Path g past l) : Path g (past ++ [l]) l
  | go {past : List L} {l : L} {e : Edge L} (h : Path g past l) (he : e ∈ g.edges)
      (hsource : e.source = l) : Path g (past ++ [l]) e.target

theorem Path.mem_locations (hg : g.Closed) {past : List L} {l : L} (h : g.Path past l) :
    l ∈ g.locations := by
  induction h with
  | start hl => exact hg.initial_mem _ hl
  | stay _ ih => exact ih
  | go _ he _ _ => exact hg.target_mem _ he

variable [DecidableEq L] {r : Registry Id}

/-- The locations along a run of a graph are a path. -/
theorem path_of_run {past : List (ProgramState L)} {s : ProgramState L}
    (h : (g.dynamics r).Run past s) : g.Path (past.map (·.location)) s.location := by
  induction h with
  | start hs => exact .start (starts_iff.mp hs).1
  | step _ hst ih =>
      rcases (leads_iff.mp hst).2 with ⟨e, he, hsource, -, htarget, -⟩
      rw [List.map_append, List.map_singleton, ← htarget]
      exact ih.go he hsource

theorem mem_locations_of_reachable (hg : g.Closed) {s : ProgramState L}
    (h : (g.dynamics r).Reachable s) : s.location ∈ g.locations := by
  rcases Dynamics.reachable_iff_exists_run.mp h with ⟨past, hrun⟩
  exact (path_of_run hrun).mem_locations hg

/-- The indices under a location are those of edges. -/
theorem lt_of_lists_outgoing {location : L} {index : Nat} (h : Lists g.outgoing location index) :
    index < g.edges.length := by
  rcases lists_outgoing_iff.mp h with ⟨e, he, -⟩
  exact (List.getElem?_eq_some_iff.mp he).1

/-- An exploration keeps to the graph. -/
structure StaysInside (g : ProgramGraph L) (r : Registry Id) (limits : Limits) (budget : Nat) :
    Prop where
  /-- The states that are kept are in locations of the graph. -/
  kept : ∀ found, ((g.dynamics r).explore limits budget).run = .ok (some found) →
    ∀ s ∈ found.system.states, s.location ∈ g.locations
  /-- So are the states it asks about, and their inputs name edges of the graph. -/
  asked : ∀ s ∈ (g.dynamics r).asked limits budget, s.location ∈ g.locations ∧
    ∀ inputs, (g.inputs r s).run = .ok inputs → ∀ input ∈ inputs, input.edge < g.edges.length
  /-- Runs are paths. -/
  paths : ∀ past s, (g.dynamics r).Run past s → g.Path (past.map (·.location)) s.location
  /-- The indices by which edges are looked up are in range. -/
  indices : ∀ location index, Lists g.outgoing location index → index < g.edges.length
  /-- A failure is one that the registry reports. -/
  failure : ∀ err, ((g.dynamics r).explore limits budget).run = .error err →
    ∃ e, err = .eval e ∧ r.Reports e

theorem Closed.staysInside (hg : g.Closed) (r : Registry Id) (limits : Limits) (budget : Nat) :
    g.StaysInside r limits budget where
  kept := by
    intro found hrun s hs
    exact mem_locations_of_reachable hg ((Dynamics.within_of_explore hrun).reachable s hs)
  asked := by
    intro s hs
    refine ⟨mem_locations_of_reachable hg (Dynamics.reachable_of_mem_asked hs), ?_⟩
    intro inputs hinputs input hinput
    rcases (mem_inputs_iff hinputs).mp hinput with ⟨e, -, hindex, -⟩
    exact (List.getElem?_eq_some_iff.mp hindex).1
  paths := fun _ _ => path_of_run
  indices := fun _ _ => lt_of_lists_outgoing
  failure := fun _ => g.reports_of_explore r

end ProgramGraph

/-- Every location of a state is one of the process at its place, and every process has
    one. -/
def SystemState.Inside (s : SystemState L) (c : ChannelSystem L) : Prop :=
  List.Forall₂ (fun l g => l ∈ g.locations) s.locations c.processes

namespace ChannelSystem

/-- A step puts the targets of edges into the places of the processes that take them, one
    process or two. All other places are as they were. -/
inductive Displaces (c : ChannelSystem L) (s t : SystemState L) : Prop where
  | alone (o : Offer L) (hgoes : c.Goes s t o)
      (h : t.locations = s.locations.set o.process o.edge.target) : Displaces c s t
  | together (o p : Offer L) (hlt : o.process < p.process) (hfirst : c.Goes s t o)
      (hsecond : c.Goes s t p)
      (h : t.locations =
        (s.locations.set o.process o.edge.target).set p.process p.edge.target) :
      Displaces c s t

/-- Seen from one place, the process stays or goes along an edge. -/
theorem Displaces.stays_or_goes {c : ChannelSystem L} {s t : SystemState L}
    (h : c.Displaces s t) (k : Nat) :
    t.locations[k]? = s.locations[k]? ∨ ∃ e, c.Goes s t ⟨k, e⟩ := by
  cases h with
  | alone o hgoes h =>
      by_cases hk : k = o.process
      · subst hk
        exact Or.inr ⟨o.edge, hgoes⟩
      · rw [h, List.getElem?_set_ne (Ne.symm hk)]
        exact Or.inl rfl
  | together o p _ hfirst hsecond h =>
      by_cases hk : k = o.process
      · subst hk
        exact Or.inr ⟨o.edge, hfirst⟩
      by_cases hk' : k = p.process
      · subst hk'
        exact Or.inr ⟨p.edge, hsecond⟩
      · -- Neither of the two places that change is this one.
        rw [h, List.getElem?_set_ne (Ne.symm hk'), List.getElem?_set_ne (Ne.symm hk)]
        exact Or.inl rfl

variable [DecidableEq L] {c : ChannelSystem L} {r : Registry Id} {s t : SystemState L}

theorem displaces_of_leads (hs : s.Fits c) {action : String}
    (h : (c.dynamics r).Leads s action t) : c.Displaces s t := by
  rcases ((leads_iff hs).mp h).2 with ⟨o, ho, halone | ⟨p, hp, htogether⟩⟩
  · rcases Offer.alone?_eq_some_iff.mp halone with ⟨-, -, env, -, hmove⟩
    refine .alone o (goes_of_alone? ho halone).1 ?_
    cases hmove
    rfl
  · rcases Offer.together?_eq_some_iff.mp htogether with ⟨⟨hlt, -⟩, -, -, env, -, hmove⟩
    rcases goes_of_together? ho hp htogether with ⟨hfirst, hsecond, -⟩
    refine .together o p hlt hfirst hsecond ?_
    cases hmove
    rfl

/-- Along a run of a channel system the locations of each process are a path in its graph. -/
theorem path_of_run {past : List (SystemState L)} (h : (c.dynamics r).Run past s) {i : Nat}
    {g : ProgramGraph L} (hg : c.processes[i]? = some g) :
    ∃ (path : List L) (l : L), past.map (·.locations[i]?) = path.map some ∧
      s.locations[i]? = some l ∧ g.Path path l := by
  induction h with
  | @start s hs =>
      -- An initial tuple has an initial location of each process at its place.
      have htuple := (starts_iff.mp hs).2
      rcases List.getElem?_eq_some_iff.mp hg with ⟨hi, rfl⟩
      have hi' : i < s.locations.length := htuple.length_eq ▸ hi
      exact ⟨[], s.locations[i], rfl, List.getElem?_eq_getElem hi', .start (htuple.get hi' hi)⟩
  | @step past s t action hrun hst ih =>
      rcases ih with ⟨path, l, hpast, hl, hpath⟩
      -- The moves of a state are known by its offers once it has one location for each process.
      have hs : s.Fits c := fits_of_reachable (Dynamics.reachable_iff_exists_run.mpr ⟨past, hrun⟩)
      have hpast' : (past ++ [s]).map (·.locations[i]?) = (path ++ [l]).map some := by
        simp only [List.map_append, List.map_singleton, hpast, hl]
      rcases (displaces_of_leads hs hst).stays_or_goes i with hstay | ⟨e, hgoes⟩
      · exact ⟨path ++ [l], l, hpast', hstay.trans hl, hpath.stay⟩
      · -- The edge is one of the same graph, and it leaves the location of the path.
        rcases hgoes.mem_edges with ⟨g', hg', he⟩
        cases hg.symm.trans hg'
        have hsource : e.source = l := Option.some.inj (hgoes.source_eq.symm.trans hl)
        exact ⟨path ++ [l], e.target, hpast', hgoes.target_eq, hpath.go he hsource⟩

theorem inside_of_reachable (hc : ∀ g ∈ c.processes, g.Closed)
    (h : (c.dynamics r).Reachable s) : s.Inside c := by
  rcases Dynamics.reachable_iff_exists_run.mp h with ⟨past, hrun⟩
  refine List.forall₂_iff_get.mpr ⟨fits_of_reachable h, ?_⟩
  intro i hi hi'
  have hg : c.processes[i]? = some c.processes[i] := List.getElem?_eq_getElem hi'
  rcases path_of_run hrun hg with ⟨path, l, -, hl, hpath⟩
  rw [List.getElem?_eq_getElem hi] at hl
  cases hl
  exact hpath.mem_locations (hc _ (List.getElem_mem hi'))

/-- An exploration keeps to the graphs of the processes. -/
structure StaysInside (c : ChannelSystem L) (r : Registry Id) (limits : Limits) (budget : Nat) :
    Prop where
  /-- The states that are kept have one location for each process, and it is one of its
      graph. -/
  kept : ∀ found, ((c.dynamics r).explore limits budget).run = .ok (some found) →
    ∀ s ∈ found.system.states, s.Inside c
  /-- So have the states it asks about, and a step changes places that are there. -/
  asked : ∀ s ∈ (c.dynamics r).asked limits budget, s.Inside c ∧
    ∀ action t, (c.dynamics r).Leads s action t → c.Displaces s t
  /-- In a run, each process takes a path in its graph. -/
  paths : ∀ past s, (c.dynamics r).Run past s →
    ∀ (i : Nat) (g : ProgramGraph L), c.processes[i]? = some g →
      ∃ (path : List L) (l : L), past.map (·.locations[i]?) = path.map some ∧
        s.locations[i]? = some l ∧ g.Path path l
  /-- The indices by which edges are looked up are in range. -/
  indices : ∀ g ∈ c.processes, ∀ location index, ProgramGraph.Lists g.outgoing location index →
    index < g.edges.length
  /-- A failure is one that the registry reports. -/
  failure : ∀ err, ((c.dynamics r).explore limits budget).run = .error err →
    ∃ e, err = .eval e ∧ r.Reports e

theorem staysInside_of_closed (hc : ∀ g ∈ c.processes, g.Closed) (r : Registry Id)
    (limits : Limits) (budget : Nat) : c.StaysInside r limits budget where
  kept := by
    intro found hrun s hs
    exact inside_of_reachable hc ((Dynamics.within_of_explore hrun).reachable s hs)
  asked := by
    intro s hs
    have hreach := Dynamics.reachable_of_mem_asked hs
    refine ⟨inside_of_reachable hc hreach, ?_⟩
    intro action t hst
    exact displaces_of_leads (fits_of_reachable hreach) hst
  paths := fun _ _ hrun _ _ => path_of_run hrun
  indices := fun _ _ _ _ => ProgramGraph.lt_of_lists_outgoing
  failure := fun _ => reports_of_explore r

end ChannelSystem

/-- Explorations keep to graphs that were assembled, whatever the registry and the limits
    are. -/
theorem explore_stays_inside [DecidableEq L] (r : Registry Id) (limits : Limits) (budget : Nat) :
    (∀ c : ChannelSystem L, (∀ g ∈ c.processes, g.Assembled) → c.StaysInside r limits budget) ∧
      ∀ g : ProgramGraph L, g.Assembled → g.StaysInside r limits budget := by
  constructor
  · intro c hc
    exact ChannelSystem.staysInside_of_closed (fun g hg => (hc g hg).closed) r limits budget
  · intro g hg
    exact hg.closed.staysInside r limits budget

/-- One process sends numbers, with a pause after each, and another one takes them. -/
def ChannelSystem.delivery : ChannelSystem String where
  processes :=
    [⟨"sender", .ofList ["ready", "pause"], .ofList ["ready"],
        [⟨"ready", "n<2", "c!n", "pause"⟩, ⟨"pause", "", "n:=n+1", "ready"⟩], [["n:=0"]]⟩,
      ⟨"taker", .ofList ["wait", "done"], .ofList ["wait"],
        [⟨"wait", "", "c?m", "done"⟩, ⟨"done", "m<1", "skip", "wait"⟩], []⟩]

/-- The second number is taken only after the first, and then the taker is done. -/
theorem delivery_stays_inside :
    let r : Registry Id := Registry.standard
    let c := ChannelSystem.delivery
    (∃ found, ((c.dynamics r).explore .unbounded 6).run = .ok (some found) ∧
      found.outcome = .complete ∧ found.depth = 6 ∧ ∀ s ∈ found.system.states, s.Inside c) ∧
    (∀ past s, (c.dynamics r).Run past s → ∀ (i : Nat) (g : ProgramGraph String),
      c.processes[i]? = some g → ∃ (path : List String) (l : String),
        past.map (·.locations[i]?) = path.map some ∧ s.locations[i]? = some l ∧ g.Path path l) ∧
    ∀ g ∈ c.processes, g.StaysInside r .unbounded 6 := by
  intro r c
  have hassembled : ∀ g ∈ c.processes, g.Assembled := by
    have hall : ∀ g ∈ c.processes, g.assembled = .ok g := by
      decide +kernel
    exact fun g hg => ⟨g, hall g hg⟩
  have hending : ((c.dynamics r).explore .unbounded 6).ending? = some (.complete, 6) := by
    decide +kernel
  rcases Explore.exists_of_ending? hending with ⟨found, hrun, houtcome, hdepth⟩
  have hinside := explore_stays_inside (L := String) r .unbounded 6
  exact ⟨⟨found, hrun, houtcome, hdepth, (hinside.1 c hassembled).kept found hrun⟩,
    (hinside.1 c hassembled).paths, fun g hg => hinside.2 g (hassembled g hg)⟩

end Interleaving
