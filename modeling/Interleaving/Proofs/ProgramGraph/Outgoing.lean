import Interleaving.Proofs.ProgramGraph.Enabled
import Mathlib.Data.List.Nodup

/-!
# Grouping Edges by Source

There are two ways to the edges that leave a location. One goes through all edges of the graph
and keeps those with this source; the other groups the indices of all edges by source, once,
and then looks the location up. The groups are built one index at a time, and an index goes to
the end of the group of its location, so a group is in the order of the edges.

Under a location stand the indices that a pass over the edges keeps. What one more index does
to the locations is carried through the list of all edges by induction as well: they become
the set of the sources. The rest follows from these two. Different groups have no index in
common, since an edge has one source, and no index is left out or leads nowhere.

## Main definitions

* `ProgramGraph.grouped?`: The edges found by looking a location up.

## Theorems

* `ProgramGraph.keys_addOutgoing`, `ProgramGraph.keys_outgoing`: The locations.
* `ProgramGraph.eq_map_edgesFrom_of_mem_outgoing`: What a group is.
* `ProgramGraph.outgoing_indices_perm`: Every index is in one group, once.
* `ProgramGraph.grouped?_eq_edgesFrom`: Looking up finds what a pass over the edges finds.
* `ProgramGraph.outgoing_partitions_edges`: All of this for every graph.
-/

namespace Interleaving

namespace ProgramGraph

variable {L : Type} [DecidableEq L]

/-- The edges that the groups have under a location, each with its index. There is no answer
    if an index is that of no edge. -/
def grouped? (g : ProgramGraph L) (location : L) : Option (List (Edge L × Nat)) :=
  ((g.outgoing.lookup location).getD []).mapM fun index => g.edges[index]?.map (·, index)

section Groups

variable {groups : List (L × List Nat)} {location : L} {index : Nat}

theorem keys_addOutgoing : (addOutgoing location index groups).map Prod.fst =
    if location ∈ groups.map Prod.fst then groups.map Prod.fst
    else groups.map Prod.fst ++ [location] := by
  induction groups with
  | nil => rfl
  | cons group rest ih =>
      rcases group with ⟨first, indices⟩
      rw [addOutgoing]
      by_cases hfirst : first = location
      · rw [if_pos hfirst, if_pos (by simp [hfirst])]
        rfl
      · have hmem : location ∈ first :: rest.map Prod.fst ↔ location ∈ rest.map Prod.fst := by
          rw [List.mem_cons, or_iff_right (Ne.symm hfirst)]
        rw [if_neg hfirst, List.map_cons, ih, List.map_cons]
        simp only [hmem]
        by_cases hrest : location ∈ rest.map Prod.fst
        · rw [if_pos hrest, if_pos hrest]
        · rw [if_neg hrest, if_neg hrest, List.cons_append]

/-- The locations are collected as a set, in the order in which they first come up. -/
theorem keys_foldl_addOutgoing {pairs : List (Edge L × Nat)} {sources : OrderedSet L}
    (h : groups.map Prod.fst = sources.toList) :
    (pairs.foldl (fun groups pair => addOutgoing pair.1.source pair.2 groups) groups).map
        Prod.fst =
      ((pairs.map (·.1.source)).foldl OrderedSet.insert sources).toList := by
  induction pairs generalizing groups sources with
  | nil => exact h
  | cons pair rest ih =>
      rw [List.foldl_cons, List.map_cons, List.foldl_cons]
      refine ih ?_
      rw [keys_addOutgoing, h]
      by_cases hmem : pair.1.source ∈ sources
      · rw [OrderedSet.insert_of_mem hmem, if_pos (OrderedSet.mem_toList.mpr hmem)]
      · rw [OrderedSet.toList_insert_of_not_mem hmem,
          if_neg (fun h => hmem (OrderedSet.mem_toList.mp h))]

theorem lookup_eq_some_of_mem {indices : List Nat} (hkeys : (groups.map Prod.fst).Nodup)
    (h : (location, indices) ∈ groups) : groups.lookup location = some indices := by
  rcases List.append_of_mem h with ⟨before, after, rfl⟩
  rw [List.map_append, List.map_cons] at hkeys
  refine List.lookup_eq_some_iff.mpr ⟨before, after, rfl, ?_⟩
  -- A location that came before would be there twice.
  intro group hgroup
  have hne : group.1 ≠ location :=
    (List.nodup_append.mp hkeys).2.2 _ (List.mem_map_of_mem hgroup) _ List.mem_cons_self
  simpa using Ne.symm hne

end Groups

section Outgoing

variable (g : ProgramGraph L)

theorem keys_outgoing :
    g.outgoing.map Prod.fst = (OrderedSet.ofList (g.edges.map (·.source))).toList := by
  have hkeys : ([] : List (L × List Nat)).map Prod.fst = (.empty : OrderedSet L).toList := rfl
  have hsources : g.edges.zipIdx.map (·.1.source) = g.edges.map (·.source) := by
    conv => rhs; rw [← List.zipIdx_map_fst 0 g.edges, List.map_map]
    rfl
  rw [outgoing_eq_foldl, keys_foldl_addOutgoing hkeys, hsources]
  rfl

theorem nodup_keys_outgoing : (g.outgoing.map Prod.fst).Nodup := by
  rw [keys_outgoing]
  exact (OrderedSet.ofList (g.edges.map (·.source))).nodup

theorem mem_keys_outgoing_iff {location : L} :
    location ∈ g.outgoing.map Prod.fst ↔ ∃ e ∈ g.edges, e.source = location := by
  rw [keys_outgoing, OrderedSet.mem_toList, OrderedSet.ofList, OrderedSet.mem_foldl_insert,
    List.mem_map]
  exact or_iff_right List.not_mem_nil

/-- The group of a location is what a pass over all edges keeps. -/
theorem eq_map_edgesFrom_of_mem_outgoing {location : L} {indices : List Nat}
    (h : (location, indices) ∈ g.outgoing) : indices = (g.edgesFrom location).map Prod.snd := by
  rw [← leaving_eq, leaving, lookup_eq_some_of_mem g.nodup_keys_outgoing h, Option.getD_some]

theorem pairwise_lt_of_mem_outgoing {location : L} {indices : List Nat}
    (h : (location, indices) ∈ g.outgoing) : indices.Pairwise (· < ·) := by
  rw [g.eq_map_edgesFrom_of_mem_outgoing h, List.pairwise_map]
  exact g.pairwise_lt_edgesFrom location

theorem mem_iff_of_mem_outgoing {location : L} {indices : List Nat}
    (h : (location, indices) ∈ g.outgoing) {index : Nat} :
    index ∈ indices ↔ ∃ e, g.edges[index]? = some e ∧ e.source = location := by
  rw [g.eq_map_edgesFrom_of_mem_outgoing h, List.mem_map]
  constructor
  · rintro ⟨⟨e, i⟩, hpair, rfl⟩
    exact ⟨e, mem_edgesFrom_iff.mp hpair⟩
  · rintro ⟨e, he⟩
    exact ⟨(e, index), mem_edgesFrom_iff.mpr he, rfl⟩

/-- No index comes twice: a group is increasing, and groups of different locations have edges
    of different sources. -/
theorem nodup_outgoing_indices : (g.outgoing.flatMap Prod.snd).Nodup := by
  rw [List.nodup_flatMap]
  constructor
  · intro group hgroup
    exact (g.pairwise_lt_of_mem_outgoing hgroup).imp Nat.ne_of_lt
  · refine (List.pairwise_map.mp g.nodup_keys_outgoing).imp_of_mem ?_
    intro group other hgroup hother hne index hindex hindex'
    rcases (g.mem_iff_of_mem_outgoing hgroup).mp hindex with ⟨e, he, hsource⟩
    rcases (g.mem_iff_of_mem_outgoing hother).mp hindex' with ⟨e', he', hsource'⟩
    have heq : e = e' := Option.some.inj (he.symm.trans he')
    exact hne (by rw [← hsource, ← hsource', heq])

theorem outgoing_indices_perm :
    (g.outgoing.flatMap Prod.snd).Perm (List.range g.edges.length) := by
  refine (List.perm_ext_iff_of_nodup g.nodup_outgoing_indices List.nodup_range).mpr ?_
  intro index
  rw [List.mem_range, List.mem_flatMap]
  constructor
  · rintro ⟨⟨location, indices⟩, hgroup, hindex⟩
    rcases (g.mem_iff_of_mem_outgoing hgroup).mp hindex with ⟨e, he, -⟩
    exact (List.getElem?_eq_some_iff.mp he).1
  · intro hlt
    have he : g.edges[index]? = some g.edges[index] := List.getElem?_eq_getElem hlt
    rcases lists_outgoing_iff.mpr ⟨_, he, rfl⟩ with ⟨indices, hgroup, hindex⟩
    exact ⟨_, hgroup, hindex⟩

/-- Every index under a location is that of an edge, and the edges are those that leave it. -/
theorem grouped?_eq_edgesFrom (location : L) :
    g.grouped? location = some (g.edgesFrom location) := by
  have hget : ∀ pair ∈ g.edgesFrom location,
      g.edges[pair.2]?.map (·, pair.2) = some pair := by
    intro pair hpair
    rw [(mem_edgesFrom_iff.mp hpair).1]
    rfl
  rw [grouped?, ← leaving, leaving_eq]
  exact mapM_map_eq_some hget

end Outgoing

/-- The groups of a graph divide the indices of its edges by source. Their locations are the
    sources, each there once; the indices of a group increase and are those of the edges with
    this source; and all groups together have every index once. So looking a location up finds
    the edges that a pass over all edges finds, in the same order, and a process of a channel
    system has these and no others. -/
theorem outgoing_partitions_edges (g : ProgramGraph L) :
    (g.outgoing.map Prod.fst).Nodup ∧
      (∀ location, location ∈ g.outgoing.map Prod.fst ↔ ∃ e ∈ g.edges, e.source = location) ∧
      (∀ location indices, (location, indices) ∈ g.outgoing → indices.Pairwise (· < ·) ∧
        ∀ index, index ∈ indices ↔ ∃ e, g.edges[index]? = some e ∧ e.source = location) ∧
      (g.outgoing.flatMap Prod.snd).Perm (List.range g.edges.length) ∧
      (∀ location, g.grouped? location = some (g.edgesFrom location) ∧
        (g.edgesFrom location).map Prod.fst = g.edges.filter (·.source = location)) ∧
      ∀ (c : ChannelSystem L) (process : Nat), c.processes[process]? = some g → ∀ location,
        (c.edgesOf process location : Eval Id (List (Edge L))).run =
          .ok (g.edges.filter (·.source = location)) := by
  refine ⟨g.nodup_keys_outgoing, fun _ => g.mem_keys_outgoing_iff, ?_, g.outgoing_indices_perm,
    ?_, ?_⟩
  · intro location indices hgroup
    exact ⟨g.pairwise_lt_of_mem_outgoing hgroup, fun _ => g.mem_iff_of_mem_outgoing hgroup⟩
  · intro location
    exact ⟨g.grouped?_eq_edgesFrom location, g.map_fst_edgesFrom location⟩
  · intro c process hprocess location
    rw [ChannelSystem.edgesOf_eq hprocess]
    rfl

/-- A graph whose edges take turns to leave two locations. One edge is there twice, and no
    edge leaves the third location. -/
def shuttle : ProgramGraph String where
  name := "shuttle"
  locations := .ofList ["near", "far", "docked"]
  initial := .ofList ["near"]
  edges := [⟨"near", "", "x:=1", "far"⟩, ⟨"far", "", "x:=2", "near"⟩,
    ⟨"near", "x>0", "x:=0", "near"⟩, ⟨"far", "", "skip", "docked"⟩, ⟨"near", "", "x:=1", "far"⟩]
  initializations := []

theorem shuttle_partitioned :
    shuttle.outgoing = [("near", [0, 2, 4]), ("far", [1, 3])] ∧
      [0, 2, 4, 1, 3].Perm (List.range 5) ∧
      ([0, 2, 4].Pairwise (· < ·) ∧ ∀ index, index ∈ [0, 2, 4] ↔
        ∃ e, shuttle.edges[index]? = some e ∧ e.source = "near") ∧
      shuttle.grouped? "far" =
        some [(⟨"far", "", "x:=2", "near"⟩, 1), (⟨"far", "", "skip", "docked"⟩, 3)] ∧
      shuttle.grouped? "docked" = some [] ∧
      ((⟨[shuttle, shuttle]⟩ : ChannelSystem String).edgesOf 1 "far" : Eval Id _).run =
        .ok [⟨"far", "", "x:=2", "near"⟩, ⟨"far", "", "skip", "docked"⟩] := by
  have hgroups : shuttle.outgoing = [("near", [0, 2, 4]), ("far", [1, 3])] := by decide
  have h := outgoing_partitions_edges shuttle
  rw [hgroups] at h
  rcases h with ⟨-, -, hgroup, hperm, hfound, hprocess⟩
  exact ⟨hgroups, hperm, hgroup "near" [0, 2, 4] List.mem_cons_self, (hfound "far").1,
    (hfound "docked").1, hprocess _ 1 rfl "far"⟩

end ProgramGraph

end Interleaving
