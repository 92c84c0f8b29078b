import Interleaving.Dynamics.ChannelSystem
import Interleaving.Proofs.ProgramGraph.References

/-!
# Looking Edges Up

The edges that leave a location are found in the groups: the indices of all edges are grouped
by source, and the location is looked up. This finds what a pass over all edges would keep,
in the same order. An index goes to the end of the group of its location, so what one more
index does to the groups is carried through the list of all edges by induction.

An index that is found is that of an edge, so the lookup of the edge does not fail. The inputs
of a state and the edges of a process are therefore those of a pass over all edges, and the
groups do not come up in what follows.

## Theorems

* `ProgramGraph.lookup_addOutgoing`: One more index.
* `ProgramGraph.leaving_eq`: What is under a location.
* `ProgramGraph.mapM_leaving`: Going through a group.
* `ProgramGraph.inputs_eq`, `ChannelSystem.edgesOf_eq`: Inputs and edges by a pass over all
  edges.
-/

namespace Interleaving

namespace ProgramGraph

variable {L : Type} [DecidableEq L]

section Groups

variable {groups : List (L × List Nat)} {location key : L} {index : Nat}

theorem lookup_addOutgoing : (addOutgoing location index groups).lookup key =
    if key = location then some ((groups.lookup location).getD [] ++ [index])
    else groups.lookup key := by
  induction groups with
  | nil => by_cases hkey : key = location <;> simp [addOutgoing, hkey]
  | cons group rest ih =>
      rcases group with ⟨first, indices⟩
      rw [addOutgoing]
      by_cases hfirst : first = location
      · rw [if_pos hfirst, hfirst]
        by_cases hkey : key = location
        · rw [hkey, List.lookup_cons_self, List.lookup_cons_self, if_pos rfl, Option.getD_some]
        · have hbeq : (key == location) = false := beq_false_of_ne hkey
          simp only [List.lookup_cons, hbeq, if_neg hkey]
      · have hbeq : (location == first) = false := beq_false_of_ne (Ne.symm hfirst)
        rw [if_neg hfirst, List.lookup_cons, List.lookup_cons, List.lookup_cons, ih, hbeq]
        by_cases hkey : key = location
        · rw [if_pos hkey, if_pos hkey, hkey, hbeq]
        · rw [if_neg hkey, if_neg hkey]

/-- Under a location, the indices of its edges come after those that were there. -/
theorem lookup_foldl_addOutgoing {pairs : List (Edge L × Nat)} :
    ((pairs.foldl (fun groups pair => addOutgoing pair.1.source pair.2 groups) groups).lookup
        location).getD [] =
      (groups.lookup location).getD [] ++
        (pairs.filter (·.1.source = location)).map Prod.snd := by
  induction pairs generalizing groups with
  | nil => simp
  | cons pair rest ih =>
      rw [List.foldl_cons, ih, lookup_addOutgoing]
      by_cases hsource : pair.1.source = location
      · simp [hsource]
      · simp [hsource, Ne.symm hsource]

end Groups

section Leaving

variable (g : ProgramGraph L) {m : Type → Type} [Monad m]

theorem outgoing_eq_foldl : g.outgoing =
    g.edges.zipIdx.foldl (fun groups pair => addOutgoing pair.1.source pair.2 groups) [] := rfl

theorem leaving_eq (location : L) : g.leaving location = (g.edgesFrom location).map Prod.snd := by
  rw [leaving, outgoing_eq_foldl, lookup_foldl_addOutgoing]
  rfl

theorem mem_edgesFrom_iff {g : ProgramGraph L} {location : L} {e : Edge L} {index : Nat} :
    (e, index) ∈ g.edgesFrom location ↔ g.edges[index]? = some e ∧ e.source = location := by
  rw [edgesFrom, List.mem_filter, List.mk_mem_zipIdx_iff_getElem?, decide_eq_true_iff]

omit [DecidableEq L] in
theorem edgeAt_of_getElem? {g : ProgramGraph L} {index : Nat} {e : Edge L}
    (h : g.edges[index]? = some e) : (g.edgeAt index : Eval m (Edge L)) = pure e := by
  simp only [edgeAt, h]

/-- Going through a group is going through the edges with the source of the group. -/
theorem mapM_leaving [LawfulMonad m] {β : Type} (location : L)
    (f : Edge L → Nat → Eval m β) :
    ((g.leaving location).mapM fun index => do f (← g.edgeAt index) index) =
      (g.edgesFrom location).mapM fun pair => f pair.1 pair.2 := by
  have hall : ∀ pairs : List (Edge L × Nat), (∀ pair ∈ pairs, g.edges[pair.2]? = some pair.1) →
      ((pairs.map Prod.snd).mapM fun index => do f (← g.edgeAt index) index) =
        pairs.mapM fun pair => f pair.1 pair.2 := by
    intro pairs hpairs
    induction pairs with
    | nil => rfl
    | cons pair rest ih =>
        have hedge : (g.edgeAt pair.2 : Eval m (Edge L)) = pure pair.1 :=
          edgeAt_of_getElem? (hpairs pair List.mem_cons_self)
        rw [List.map_cons, List.mapM_cons, List.mapM_cons, hedge, pure_bind,
          ih fun other hother => hpairs other (List.mem_cons_of_mem pair hother)]
  rw [leaving_eq]
  exact hall _ fun pair hpair => (mem_edgesFrom_iff.mp hpair).1

/-- The inputs of a state are told by a pass over the edges. -/
theorem inputs_eq [LawfulMonad m] (r : Registry m) (s : ProgramState L) : g.inputs r s = (do
    let found ← (g.edgesFrom s.location).mapM fun pair => do
      return (← r.edgeEffect s.env pair.1).map fun _ => (⟨pair.2, pair.1.action⟩ : Input)
    return found.filterMap id) := by
  have hpass := g.mapM_leaving s.location fun e index => do
    return (← r.edgeEffect s.env e).map fun _ => (⟨index, e.action⟩ : Input)
  rw [inputs, hpass]

end Leaving

end ProgramGraph

/-- The edges of a process are told by a pass over the edges of its graph. -/
theorem ChannelSystem.edgesOf_eq {L : Type} [DecidableEq L] {m : Type → Type} [Monad m]
    [LawfulMonad m] {c : ChannelSystem L} {process : Nat} {g : ProgramGraph L}
    (h : c.processes[process]? = some g) (location : L) :
    (c.edgesOf process location : Eval m (List (Edge L))) =
      pure (g.edges.filter (·.source = location)) := by
  have hpass := g.mapM_leaving location fun e _ => (pure e : Eval m (Edge L))
  simp only [bind_pure] at hpass
  simp only [edgesOf, h, hpass, ← g.map_fst_edgesFrom]
  rw [List.mapM_pure]

end Interleaving
