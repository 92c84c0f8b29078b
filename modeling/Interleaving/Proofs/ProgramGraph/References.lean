import Interleaving.ProgramGraph.Assembly
import Mathlib.Logic.Basic

/-!
# References Inside a Program Graph

A graph refers to its parts in two ways. Its initial locations and the ends of its edges
are locations, which it may or may not have; its edges are grouped by source under their
indices. A graph without violations has every location it refers to, and what is assembled
has no violations. An index is always that of an edge, in any graph.

## Main definitions

* `ProgramGraph.Closed`: A graph that has every location it refers to.
* `ProgramGraph.Assembled`: A graph that came out of an assembly.
* `ProgramGraph.Lists`: Groups of indices have an index under a location.

## Theorems

* `ProgramGraph.violations_eq_nil_iff`: Graphs without violations are closed.
* `ProgramGraph.assembled_eq_ok_iff`: What comes out of an assembly.
* `ProgramGraph.lists_outgoing_iff`: The groups have each edge under its source.
-/

namespace Interleaving

namespace ProgramGraph

variable {L : Type}

/-- The graph has every location it refers to. -/
structure Closed (g : ProgramGraph L) : Prop where
  initial_mem : ∀ l ∈ g.initial, l ∈ g.locations
  source_mem : ∀ e ∈ g.edges, e.source ∈ g.locations
  target_mem : ∀ e ∈ g.edges, e.target ∈ g.locations

/-- Groups of indices have an index under a location. -/
def Lists (groups : List (L × List Nat)) (location : L) (index : Nat) : Prop :=
  ∃ indices, (location, indices) ∈ groups ∧ index ∈ indices

theorem lists_cons_iff {group : L × List Nat} {rest : List (L × List Nat)} {location : L}
    {index : Nat} : Lists (group :: rest) location index ↔
      (group.1 = location ∧ index ∈ group.2) ∨ Lists rest location index := by
  rcases group with ⟨key, indices⟩
  constructor
  · intro h
    rcases h with ⟨indices', hmem, hindex⟩
    rcases List.mem_cons.mp hmem with heq | hrest
    · cases heq
      exact Or.inl ⟨rfl, hindex⟩
    · exact Or.inr ⟨indices', hrest, hindex⟩
  · intro h
    rcases h with ⟨rfl, hindex⟩ | ⟨indices', hrest, hindex⟩
    · exact ⟨indices, List.mem_cons_self, hindex⟩
    · exact ⟨indices', List.mem_cons_of_mem _ hrest, hindex⟩

/-- Under their indices, the edges stand in order. -/
theorem pairwise_lt_zipIdx_edges (g : ProgramGraph L) :
    g.edges.zipIdx.Pairwise fun pair other => pair.2 < other.2 := by
  rw [← List.pairwise_map, List.zipIdx_map_snd]
  exact List.pairwise_lt_range'

variable [DecidableEq L] {g : ProgramGraph L}

/-- The edges that leave a location, with their indices or without. -/
theorem map_fst_edgesFrom (g : ProgramGraph L) (location : L) :
    (g.edgesFrom location).map Prod.fst = g.edges.filter (·.source = location) := by
  unfold edgesFrom
  conv => rhs; rw [← List.zipIdx_map_fst 0 g.edges, List.filter_map]
  rfl

/-- The graph came out of an assembly. -/
def Assembled (g : ProgramGraph L) : Prop :=
  ∃ h : ProgramGraph L, h.assembled = .ok g

theorem check_eq_nil_iff {location : L} {violation : Violation L} :
    g.check location violation = [] ↔ location ∈ g.locations := by
  rw [check, ite_eq_left_iff]
  simp only [reduceCtorEq, imp_false, not_not]

theorem violations_eq_nil_iff : g.violations = [] ↔ g.Closed := by
  simp only [violations, List.append_eq_nil_iff, List.flatMap_eq_nil_iff, check_eq_nil_iff]
  constructor
  · intro h
    rcases h with ⟨hinitial, hedges⟩
    -- An edge is checked under its index.
    have hends : ∀ e ∈ g.edges, e.source ∈ g.locations ∧ e.target ∈ g.locations := by
      intro e he
      rcases List.mem_iff_getElem?.mp he with ⟨index, hindex⟩
      exact hedges (e, index) (List.mk_mem_zipIdx_iff_getElem?.mpr hindex)
    exact ⟨hinitial, fun e he => (hends e he).1, fun e he => (hends e he).2⟩
  · intro h
    refine ⟨h.initial_mem, ?_⟩
    intro pair hpair
    have he : pair.1 ∈ g.edges := List.fst_mem_of_mem_zipIdx hpair
    exact ⟨h.source_mem pair.1 he, h.target_mem pair.1 he⟩

/-- What comes out of an assembly is what went in. It has an initial location and every
    location it refers to. -/
theorem assembled_eq_ok_iff {h : ProgramGraph L} :
    h.assembled = .ok g ↔ h = g ∧ g.Closed ∧ ∃ l, l ∈ g.initial := by
  have hinitial : g.initial.isEmpty = false ↔ ∃ l, l ∈ g.initial := by
    rw [OrderedSet.isEmpty, List.isEmpty_eq_false_iff_exists_mem]
    rfl
  rw [← violations_eq_nil_iff, ← hinitial]
  constructor
  · intro hrun
    rw [assembled] at hrun
    split at hrun
    · cases hrun
    · next hnonempty =>
      split at hrun
      · next hviolations =>
        cases hrun
        exact ⟨rfl, hviolations, Bool.eq_false_iff.mpr hnonempty⟩
      · cases hrun
  · intro hall
    rcases hall with ⟨rfl, hviolations, hnonempty⟩
    rw [assembled, hnonempty, hviolations]
    rfl

theorem Assembled.closed (h : g.Assembled) : g.Closed := by
  rcases h with ⟨h, hrun⟩
  exact (assembled_eq_ok_iff.mp hrun).2.1

theorem lists_addOutgoing_iff {groups : List (L × List Nat)} {location key : L}
    {new index : Nat} : Lists (addOutgoing location new groups) key index ↔
      Lists groups key index ∨ (key = location ∧ index = new) := by
  induction groups with
  | nil =>
      rw [addOutgoing, lists_cons_iff]
      simp only [Lists, List.mem_singleton, List.not_mem_nil, false_and, exists_false, or_false,
        false_or, eq_comm]
  | cons group rest ih =>
      rcases group with ⟨first, indices⟩
      rw [addOutgoing]
      by_cases hfirst : first = location
      · -- The new index joins the group that its location has already.
        rw [if_pos hfirst, lists_cons_iff, lists_cons_iff, List.mem_append, List.mem_singleton]
        grind
      · rw [if_neg hfirst, lists_cons_iff, lists_cons_iff, ih, or_assoc]

theorem lists_foldl_addOutgoing_iff {pairs : List (Edge L × Nat)}
    {groups : List (L × List Nat)} {location : L} {index : Nat} :
    Lists (pairs.foldl (fun groups (e, index) => addOutgoing e.source index groups) groups)
        location index ↔
      Lists groups location index ∨ ∃ e, (e, index) ∈ pairs ∧ e.source = location := by
  induction pairs generalizing groups with
  | nil => simp only [List.foldl_nil, List.not_mem_nil, false_and, exists_false, or_false]
  | cons pair rest ih =>
      rcases pair with ⟨first, new⟩
      rw [List.foldl_cons, ih, lists_addOutgoing_iff, or_assoc]
      refine or_congr_right ?_
      simp only [List.mem_cons, Prod.mk.injEq]
      grind

/-- The groups have exactly the edges of the graph, each one under its source. -/
theorem lists_outgoing_iff {location : L} {index : Nat} :
    Lists g.outgoing location index ↔
      ∃ e, g.edges[index]? = some e ∧ e.source = location := by
  have hnone : ¬ Lists ([] : List (L × List Nat)) location index := by
    intro h
    rcases h with ⟨indices, hmem, -⟩
    cases hmem
  rw [outgoing, lists_foldl_addOutgoing_iff, or_iff_right hnone]
  simp only [List.mk_mem_zipIdx_iff_getElem?]

end ProgramGraph

end Interleaving
