import Interleaving.Proofs.Exploration.Embedding
import Interleaving.Proofs.ProgramGraph.Groups
import Interleaving.Proofs.Reordering

/-!
# A Channel System of One Process

A process that has no one to meet does in a channel system what it does alone. Its state is a
location with an environment either way, but the two state spaces are asked in different
words. A graph offers its edges by index and computes the effect of an edge a second time when
it is taken; a channel system computes it once and keeps the successor. With pure handlers the
second answer is the first one again. The environments runs start in are made from the
initialization sequences in one case and from all their actions in the other, which is the same
as long as there is at most one sequence.

So the state space of the graph is embedded in that of the channel system, edge by edge in the
same order, and explorations of the two have the same result.

## Main definitions

* `ProgramState.alone`: A state of a graph as that of a system of one process.

## Theorems

* `ProgramGraph.edge_tracks`: What one edge does in both.
* `ProgramGraph.inputs_tracks`, `ProgramGraph.initial_tracks`: The answers of both.
* `explore_single_process_images`: Explorations of both have the same result.
-/

namespace Interleaving

open ChannelSystem (interleave Move)

variable {L : Type}

/-- A state of a graph as that of a system of one process. -/
def ProgramState.alone (s : ProgramState L) : SystemState L :=
  ⟨[s.location], s.env⟩

theorem ProgramState.alone_injective : Function.Injective (ProgramState.alone (L := L)) := by
  intro s t h
  rcases s with ⟨location, env⟩
  rcases t with ⟨location', env'⟩
  cases h
  rfl

namespace ProgramGraph

/-- An input of a graph and a move of a system of one process are the same step. -/
def SameStep (g : ProgramGraph L) (r : Registry Id) (s : ProgramState L) (input : Input)
    (move : Move L) : Prop :=
  move.action = input.action ∧
    Tracks Eq (fun t t' => t' = ProgramState.alone t) (g.next r s input)
      (pure move.next : Eval Id (SystemState L))

variable {g : ProgramGraph L} {r : Registry Id} {s : ProgramState L}

/-- What one edge does. The graph will compute its effect again. -/
theorem edge_tracks {e : Edge L} {index : Nat} (hindex : g.edges[index]? = some e) :
    Tracks Eq (fun input? moves => List.Forall₂ (g.SameStep r s) input?.toList moves)
      (do return (← r.edgeEffect s.env e).map fun _ => (⟨index, e.action⟩ : Input) :
        Eval Id (Option Input))
      (interleave r s.alone 0 e) := by
  cases heffect : (r.edgeEffect s.env e).run with
  | error err => exact .error (run_bind_of_error heffect) (run_bind_of_error heffect) rfl
  | ok env? =>
      have hafter := (r.edgeEffect_givesUnless s.env e).eq_of_run_eq_ok heffect
      cases env? with
      | none => exact .ok (run_bind_of_ok heffect) (run_bind_of_ok heffect) .nil
      | some env =>
          refine .ok (run_bind_of_ok heffect) (run_bind_of_ok heffect) (.cons ⟨rfl, ?_⟩ .nil)
          exact .ok (run_next_of_after? hindex hafter.symm e.action) rfl rfl

/-- At most one sequence makes one environment, either way. -/
theorem environments_track (hinit : g.initializations.length ≤ 1) :
    Tracks Eq (fun environments env => environments = [env]) (g.initialEnvironments r)
      (r.runInitialization .empty (⟨[g]⟩ : ChannelSystem L).initializationActions) := by
  have hactions : (⟨[g]⟩ : ChannelSystem L).initializationActions = g.initializations.flatten := by
    rw [ChannelSystem.initializationActions, List.flatMap_singleton]
  rw [hactions, initialEnvironments]
  cases hsequences : g.initializations with
  | nil => exact .pure rfl
  | cons actions more =>
      have hmore : more = [] := by
        rw [hsequences, List.length_cons] at hinit
        exact List.eq_nil_of_length_eq_zero (by omega)
      rw [hmore, List.flatten_cons, List.flatten_nil, List.append_nil]
      cases hrun : (r.runInitialization .empty actions).run with
      | error e => exact .error (run_bind_of_error hrun) hrun rfl
      | ok env => exact .ok (run_bind_of_ok hrun) hrun rfl

theorem initial_tracks (hinit : g.initializations.length ≤ 1) :
    Tracks Eq (fun starts starts' => starts' = starts.map ProgramState.alone) (g.initialStates r)
      ((⟨[g]⟩ : ChannelSystem L).initialStates r) := by
  refine (environments_track hinit).bind ?_
  intro environments env _ henv
  refine .pure ?_
  rw [henv]
  simp [ChannelSystem.initialTuples, ChannelSystem.choices, ProgramState.alone, List.map_flatMap]

variable [DecidableEq L]

theorem inputs_tracks (hside : ∀ e ∈ g.edges, r.isOneSided e.action = false) :
    Tracks Eq (List.Forall₂ (g.SameStep r s)) (g.inputs r s)
      ((⟨[g]⟩ : ChannelSystem L).moves r s.alone) := by
  have hmoves : (⟨[g]⟩ : ChannelSystem L).moves r s.alone =
      (do
        let found ← (g.edgesFrom s.location).mapM fun pair =>
          if r.isOneSided pair.1.action
          then (⟨[g]⟩ : ChannelSystem L).rendezvous r s.alone 0 pair.1
          else interleave r s.alone 0 pair.1
        return found.flatten) := by
    have hprocess : (⟨[g]⟩ : ChannelSystem L).processes[0]? = some g := rfl
    simp only [ChannelSystem.moves, ChannelSystem.movesOf, ChannelSystem.edgesOf_eq hprocess,
      ProgramState.alone, bind_pure_comp, List.zipIdx_cons, List.zipIdx_nil, List.mapM_cons,
      pure_bind, ← g.map_fst_edgesFrom, List.mapM_map, List.mapM_nil, map_pure, Functor.map_map,
      List.flatten_cons, List.flatten_nil, List.append_nil, zero_add]
    rfl
  rw [hmoves, inputs_eq]
  refine (Tracks.mapM
    (R := fun input? moves => List.Forall₂ (g.SameStep r s) input?.toList moves) ?_).bind ?_
  · intro pair hpair
    rcases mem_edgesFrom_iff.mp hpair with ⟨hindex, -⟩
    have hsingle := hside pair.1 (List.mem_of_getElem? hindex)
    rw [if_neg (by rw [hsingle]; exact Bool.false_ne_true)]
    exact edge_tracks hindex
  · intro found found' _ hfound
    refine .pure ?_
    rw [List.filterMap_eq_flatMap_toList, List.flatMap_def]
    exact List.rel_flatten (List.forall₂_map_left_iff.mpr hfound)

/-- The state space of a graph is embedded in that of a system of one process. -/
theorem embeds_single (hinit : g.initializations.length ≤ 1)
    (hside : ∀ e ∈ g.edges, r.isOneSided e.action = false) :
    (g.dynamics r).Embeds ((⟨[g]⟩ : ChannelSystem L).dynamics r) ProgramState.alone where
  injective := ProgramState.alone_injective
  initial := initial_tracks hinit
  inputs := fun _ => inputs_tracks hside
  labels_eq := fun _ => rfl

end ProgramGraph

/-- Exploring a graph and exploring the channel system that has it as its only process give the
    same result: the same error, or the same findings, with each state of the graph as that of
    the one process. The handlers are arbitrary, but none of the actions of the graph may wait
    for a partner, and there may be at most one initialization sequence. -/
theorem explore_single_process_images [DecidableEq L] (g : ProgramGraph L) (r : Registry Id)
    (limits : Limits) (budget : Nat) (hinit : g.initializations.length ≤ 1)
    (hside : ∀ e ∈ g.edges, r.isOneSided e.action = false) :
    Tracks (fun err err' => ∃ e, err = .eval e ∧ err' = .eval e)
      (Option.Rel (Exploration.Images ProgramState.alone)) ((g.dynamics r).explore limits budget)
      (((⟨[g]⟩ : ChannelSystem L).dynamics r).explore limits budget) :=
  (ProgramGraph.embeds_single hinit hside).explore limits budget

/-- The counter, alone and as the only process. -/
theorem counter_single_process_images :
    let r : Registry Id := Registry.standard
    let c : ChannelSystem String := ⟨[.counter]⟩
    ∃ found found', ((ProgramGraph.counter.dynamics r).explore .unbounded 5).run =
        .ok (some found) ∧
      ((c.dynamics r).explore .unbounded 5).run = .ok (some found') ∧
      found.outcome = .complete ∧ found.depth = 5 ∧ found.Images ProgramState.alone found' := by
  intro r c
  have hside : ∀ e ∈ ProgramGraph.counter.edges, r.isOneSided e.action = false := by
    decide +kernel
  have hending : Explore.ending? ((ProgramGraph.counter.dynamics r).explore .unbounded 5) =
      some (.complete, 5) := by
    decide +kernel
  rcases Explore.exists_of_ending? hending with ⟨found, hrun, houtcome, hdepth⟩
  cases explore_single_process_images ProgramGraph.counter r .unbounded 5 (by decide) hside with
  | error hx _ _ =>
      rw [hrun] at hx
      cases hx
  | ok hx hy himages =>
      rw [hrun] at hx
      cases hx
      cases himages with
      | some himage => exact ⟨found, _, hrun, hy, houtcome, hdepth, himage⟩

end Interleaving
