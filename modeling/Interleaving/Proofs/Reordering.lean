import Interleaving.Proofs.ChannelSystem.Steps
import Interleaving.Proofs.Exploration.Comparison
import Interleaving.Proofs.ProgramGraph.Steps
import Interleaving.Registry.Script

/-!
# Graphs Written in Another Order

A program graph has a list of edges and a set of initial locations. The order in which
these are given decides in which order a search meets the states, and so which numbers
these get; it may also decide which failure the search meets first. It decides nothing
else. Graphs that differ only in such orders have the same edges leaving each location
and the same initial locations, so their state spaces have the same runs, and
explorations of these have the same results.

Nothing of this depends on what the texts mean, so the registry is arbitrary. The state
limit is not: where it cuts a search off depends on the order.

## Main definitions

* `ProgramGraph.Reorders`: The same graph, in another order.
* `ChannelSystem.Reorders`: The same processes, each in another order.

## Theorems

* `ProgramGraph.Reorders.agrees`, `ChannelSystem.Reorders.agrees`: The state spaces have
  the same runs.
* `explore_ignores_order`: Explorations have the same results.
-/

namespace Interleaving

variable {L : Type}

/-- The same graph, with its edges and its locations in another order. -/
structure ProgramGraph.Reorders (g g' : ProgramGraph L) : Prop where
  name_eq : g.name = g'.name
  locations : g.locations.toList.Perm g'.locations.toList
  initial : g.initial.toList.Perm g'.initial.toList
  edges : g.edges.Perm g'.edges
  initializations_eq : g.initializations = g'.initializations

/-- The same processes, each of them in another order. -/
def ChannelSystem.Reorders (c c' : ChannelSystem L) : Prop :=
  List.Forall₂ ProgramGraph.Reorders c.processes c'.processes

namespace ProgramGraph.Reorders

variable {g g' : ProgramGraph L}

theorem mem_initial_iff (h : g.Reorders g') (l : L) : l ∈ g.initial ↔ l ∈ g'.initial :=
  h.initial.mem_iff

theorem mem_edges_iff (h : g.Reorders g') (e : Edge L) : e ∈ g.edges ↔ e ∈ g'.edges :=
  h.edges.mem_iff

variable [DecidableEq L]

theorem agrees (h : g.Reorders g') (r : Registry Id) : (g.dynamics r).Agrees (g'.dynamics r) := by
  have henvironments : g.initialEnvironments r = g'.initialEnvironments r := by
    rw [initialEnvironments, initialEnvironments, h.initializations_eq]
  exact
    { initial_iff := by
        rw [ProgramGraph.initial_iff, ProgramGraph.initial_iff, henvironments]
      starts_iff := by
        intro s
        rw [ProgramGraph.starts_iff, ProgramGraph.starts_iff, henvironments, h.mem_initial_iff]
      answers_iff := by
        intro s _
        simp only [ProgramGraph.answers_iff, h.mem_edges_iff]
      leads_iff := by
        intro s _ action t
        simp only [ProgramGraph.leads_iff, h.mem_edges_iff]
      labels_iff := fun s p => Iff.rfl }

end ProgramGraph.Reorders

namespace ChannelSystem.Reorders

variable {c c' : ChannelSystem L}

theorem initializationActions_eq (h : c.Reorders c') :
    c.initializationActions = c'.initializationActions := by
  rcases c with ⟨processes⟩
  rcases c' with ⟨processes'⟩
  change List.Forall₂ _ processes processes' at h
  unfold initializationActions
  induction h with
  | nil => rfl
  | cons hg _ ih => rw [List.flatMap_cons, List.flatMap_cons, hg.initializations_eq, ih]

/-- At each place there is a process in both systems or in none. -/
theorem getElem?_cases (h : c.Reorders c') (i : Nat) :
    (c.processes[i]? = none ∧ c'.processes[i]? = none) ∨
      ∃ g g', c.processes[i]? = some g ∧ c'.processes[i]? = some g' ∧ g.Reorders g' := by
  rcases List.forall₂_iff_get.mp h with ⟨hlength, hget⟩
  by_cases hi : i < c.processes.length
  · have hi' : i < c'.processes.length := hlength ▸ hi
    exact Or.inr ⟨_, _, List.getElem?_eq_getElem hi, List.getElem?_eq_getElem hi',
      hget i hi hi'⟩
  · have hi' : ¬ i < c'.processes.length := hlength ▸ hi
    exact Or.inl ⟨List.getElem?_eq_none (Nat.le_of_not_lt hi),
      List.getElem?_eq_none (Nat.le_of_not_lt hi')⟩

theorem forall₂_initial_iff (h : c.Reorders c') (locations : List L) :
    List.Forall₂ (fun l g => l ∈ g.initial) locations c.processes ↔
      List.Forall₂ (fun l g => l ∈ g.initial) locations c'.processes := by
  rcases c with ⟨processes⟩
  rcases c' with ⟨processes'⟩
  change List.Forall₂ _ processes processes' at h
  induction h generalizing locations with
  | nil => rfl
  | cons hg _ ih => simp only [List.forall₂_cons_right_iff, hg.mem_initial_iff, ih]

variable [DecidableEq L]

theorem mem_offers_iff (h : c.Reorders c') (s : SystemState L) (o : Offer L) :
    o ∈ c.offers s ↔ o ∈ c'.offers s := by
  have hedges : ∀ location, o.edge ∈ c.edgesAt o.process location ↔
      o.edge ∈ c'.edgesAt o.process location := by
    intro location
    unfold edgesAt
    rcases h.getElem?_cases o.process with ⟨hnone, hnone'⟩ | ⟨g, g', hsome, hsome', hg⟩
    · rw [hnone, hnone']
    · simp only [hsome, hsome', List.mem_filter, hg.mem_edges_iff]
  simp only [offers, mem_offersOf_iff, hedges]

theorem failsFrom_iff (h : c.Reorders c') (r : Registry Id) (s : SystemState L) (o : Offer L) :
    c.FailsFrom r s o ↔ c'.FailsFrom r s o := by
  simp only [FailsFrom, h.mem_offers_iff]

theorem agrees (h : c.Reorders c') (r : Registry Id) : (c.dynamics r).Agrees (c'.dynamics r) := by
  have hfits : ∀ s, (c.dynamics r).Reachable s → s.Fits c ∧ s.Fits c' := by
    intro s hs
    have hfit := fits_of_reachable hs
    exact ⟨hfit, hfit.trans h.length_eq⟩
  exact
    { initial_iff := by
        rw [ChannelSystem.initial_iff, ChannelSystem.initial_iff, h.initializationActions_eq]
      starts_iff := by
        intro s
        rw [ChannelSystem.starts_iff, ChannelSystem.starts_iff, h.initializationActions_eq,
          h.forall₂_initial_iff]
      answers_iff := by
        intro s hs
        rw [ChannelSystem.answers_iff (hfits s hs).1, ChannelSystem.answers_iff (hfits s hs).2]
        simp only [h.mem_offers_iff, h.failsFrom_iff]
      leads_iff := by
        intro s hs action t
        rw [ChannelSystem.leads_iff (hfits s hs).1, ChannelSystem.leads_iff (hfits s hs).2]
        simp only [h.mem_offers_iff, h.failsFrom_iff]
      labels_iff := fun s p => Iff.rfl }

end ChannelSystem.Reorders

/-- Without a state limit, the order in which graphs are written decides nothing but the
    numbers of the states: explorations that come to an end both fail, or both find the
    same. -/
theorem explore_ignores_order [DecidableEq L] (r : Registry Id) (limits : Limits)
    (hlimits : limits.maxStates = none) (budget budget' : Nat) :
    (∀ g g' : ProgramGraph L, g.Reorders g' →
      Explore.SameResult ((g.dynamics r).explore limits budget)
        ((g'.dynamics r).explore limits budget')) ∧
    ∀ c c' : ChannelSystem L, c.Reorders c' →
      Explore.SameResult ((c.dynamics r).explore limits budget)
        ((c'.dynamics r).explore limits budget') := by
  constructor
  · intro g g' h
    exact (h.agrees r).sameResult hlimits budget budget'
  · intro c c' h
    exact (h.agrees r).sameResult hlimits budget budget'

/-- A counter that starts at either of its locations. -/
def ProgramGraph.counter : ProgramGraph String where
  name := "counter"
  locations := .ofList ["on", "off"]
  initial := .ofList ["on", "off"]
  edges := [⟨"on", "n<3", "n:=n+1", "on"⟩, ⟨"on", "n>1", "skip", "off"⟩]
  initializations := [["n:=0"]]

/-- The same counter, written the other way round. -/
def ProgramGraph.backwardCounter : ProgramGraph String where
  name := "counter"
  locations := .ofList ["off", "on"]
  initial := .ofList ["off", "on"]
  edges := [⟨"on", "n>1", "skip", "off"⟩, ⟨"on", "n<3", "n:=n+1", "on"⟩]
  initializations := [["n:=0"]]

theorem ProgramGraph.counter_reorders : counter.Reorders backwardCounter where
  name_eq := rfl
  locations := by decide
  initial := by decide
  edges := by decide
  initializations_eq := rfl

theorem Explore.SameResult.sameFindings_of_ending? {σ : Type} [DecidableEq σ]
    {x x' : Explore Id σ (Option (Exploration σ))} (h : SameResult x x') {outcome : Outcome}
    {depth : Nat} (hx : x.ending? = some (outcome, depth)) (hx' : x'.ending? ≠ none) :
    ∃ found found', x.run = .ok (some found) ∧ x'.run = .ok (some found') ∧
      found.outcome = outcome ∧ found.depth = depth ∧ found.SameFindings found' := by
  rcases exists_of_ending? hx with ⟨found, hrun, houtcome, hdepth⟩
  rcases Option.ne_none_iff_exists'.mp hx' with ⟨⟨outcome', depth'⟩, hending'⟩
  rcases exists_of_ending? hending' with ⟨found', hrun', -, -⟩
  have hsame := h (by rw [hrun]; simp) (by rw [hrun']; simp)
  exact ⟨found, found', hrun, hrun', houtcome, hdepth, hsame.2 found found' hrun hrun'⟩

/-- The counter alone, and next to another one. -/
theorem counter_ignores_order :
    let r : Registry Id := Registry.standard
    let c : ChannelSystem String := ⟨[.counter, .backwardCounter]⟩
    let c' : ChannelSystem String := ⟨[.backwardCounter, .backwardCounter]⟩
    (∃ found found',
      ((ProgramGraph.counter.dynamics r).explore .unbounded 5).run = .ok (some found) ∧
      ((ProgramGraph.backwardCounter.dynamics r).explore .unbounded 5).run = .ok (some found') ∧
      found.outcome = .complete ∧ found.depth = 5 ∧ found.SameFindings found') ∧
    ∃ found found', ((c.dynamics r).explore ⟨some 3, none⟩ 3).run = .ok (some found) ∧
      ((c'.dynamics r).explore ⟨some 3, none⟩ 4).run = .ok (some found') ∧
      found.outcome = .depthLimit ∧ found.depth = 3 ∧ found.SameFindings found' := by
  intro r c c'
  have hsystems : c.Reorders c' :=
    .cons ProgramGraph.counter_reorders (.cons ⟨rfl, .refl _, .refl _, .refl _, rfl⟩ .nil)
  have hgraphs := (explore_ignores_order r .unbounded rfl 5 5).1 _ _ ProgramGraph.counter_reorders
  have htogether := (explore_ignores_order r ⟨some 3, none⟩ rfl 3 4).2 c c' hsystems
  exact ⟨hgraphs.sameFindings_of_ending? (by decide +kernel) (by decide +kernel),
    htogether.sameFindings_of_ending? (by decide +kernel) (by decide +kernel)⟩

end Interleaving
