import Interleaving.Dynamics.ChannelSystem
import Interleaving.Proofs.Computation
import Interleaving.Proofs.ProgramGraph.Groups
import Interleaving.Registry.Script
import Mathlib.Data.List.Perm.Basic

/-!
# The Moves of a Channel System

The moves of a state are found by nested loops: over the processes, over the
edges of each, and for a one-sided edge over the edges of all later processes.
Here they are described without loops. An offer is an edge of some process that
leaves the location the process is in. A move belongs to one offer or to a pair
of offers: an ordinary action is taken alone, and two one-sided actions of
different processes are taken together, the one of the earlier process first.
So the moves are what the offers give alone and what the pairs of offers give
together, each offer and each pair once.

Evaluation may fail. What has to be evaluated for an offer alone is its guard, and
its effect if the guard holds; for a pair that matches, the first guard, then
the second one if the first holds, then the combined effect if both hold. The
moves are there exactly if none of this fails.

The order of the moves is that of the loops, in which the pairs of an offer come
before the next offer. That order is dropped here, `List.Perm` compares what is
in the two lists and how often.

## Main definitions

* `Offer`: An edge that leaves the location of its process.
* `ChannelSystem.offers`: The offers of a state.
* `Offer.alone?`, `Offer.together?`: The moves of one offer and of two.
* `Offer.FailsAlone`, `Offer.FailsTogether`: Failures on the way to a move.

## Theorems

* `interleave_givesUnless`, `meet_givesUnless`: One move at a time.
* `rendezvous_givesUnless`, `movesOf_givesUnless`, `moves_givesUnless`: The loops,
  from the inside out.
* `moves_perm_offers`: The moves of a state by its offers.
-/

namespace Interleaving

namespace Registry

variable {r : Registry Id} {env : Environment} {first second : String}

theorem run_bothHold_eq_true_iff : (r.bothHold env first second).run = .ok true ↔
    (r.holds env first).run = .ok true ∧ (r.holds env second).run = .ok true := by
  unfold bothHold
  rw [run_guarded_eq_ok_iff]
  simp

theorem run_bothHold_eq_error_iff {e : EvalError} :
    (r.bothHold env first second).run = .error e ↔ (r.holds env first).run = .error e ∨
      ((r.holds env first).run = .ok true ∧ (r.holds env second).run = .error e) :=
  run_guarded_eq_error_iff

end Registry

variable {L : Type}

/-- An edge of a process. -/
structure Offer (L : Type) where
  /-- The number of the process. -/
  process : Nat
  edge : Edge L

namespace Offer

open ChannelSystem

/-- The move in which a process takes an edge alone. The action is not one-sided,
    the guard holds and the action is enabled. -/
def alone? (r : Registry Id) (s : SystemState L) (o : Offer L) : Option (Move L) :=
  match r.isOneSided o.edge.action, (r.holds s.env o.edge.guard).run,
    (r.effect s.env o.edge.action).run with
  | false, .ok true, .ok (some env) =>
    some ⟨⟨s.locations.set o.process o.edge.target, env⟩, o.edge.action⟩
  | _, _, _ => none

/-- Two actions can meet: both are one-sided, the first is of an earlier process,
    and the combined text matches. -/
def Matches (r : Registry Id) (o p : Offer L) : Prop :=
  o.process < p.process ∧ r.isOneSided o.edge.action = true ∧
    r.isOneSided p.edge.action = true ∧ r.isMatching (combine o.edge.action p.edge.action) = true

instance (r : Registry Id) (o p : Offer L) : Decidable (Matches r o p) :=
  inferInstanceAs (Decidable (_ ∧ _))

/-- The move in which two processes take edges together. The actions match, both
    guards hold and the combined action is enabled. -/
def together? (r : Registry Id) (s : SystemState L) (o p : Offer L) : Option (Move L) :=
  if Matches r o p then
    match (r.holds s.env o.edge.guard).run, (r.holds s.env p.edge.guard).run,
      (r.rendezvousEffect s.env (combine o.edge.action p.edge.action)).run with
    | .ok true, .ok true, .ok (some env) =>
      some ⟨⟨(s.locations.set o.process o.edge.target).set p.process p.edge.target, env⟩,
        combine o.edge.action p.edge.action⟩
    | _, _, _ => none
  else none

/-- The evaluation of an ordinary action fails: its guard does, or its effect
    after the guard holds. -/
def FailsAlone (r : Registry Id) (s : SystemState L) (o : Offer L) : Prop :=
  r.isOneSided o.edge.action = false ∧
    ((∃ e, (r.holds s.env o.edge.guard).run = .error e) ∨
      ((r.holds s.env o.edge.guard).run = .ok true ∧
        ∃ e, (r.effect s.env o.edge.action).run = .error e))

/-- The evaluation of two actions that match fails: the first guard does, or the
    second after the first holds, or the combined effect after both hold. -/
def FailsTogether (r : Registry Id) (s : SystemState L) (o p : Offer L) : Prop :=
  Matches r o p ∧
    ((∃ e, (r.holds s.env o.edge.guard).run = .error e) ∨
      ((r.holds s.env o.edge.guard).run = .ok true ∧
        ∃ e, (r.holds s.env p.edge.guard).run = .error e) ∨
      ((r.holds s.env o.edge.guard).run = .ok true ∧
        (r.holds s.env p.edge.guard).run = .ok true ∧
        ∃ e, (r.rendezvousEffect s.env (combine o.edge.action p.edge.action)).run = .error e))

end Offer

namespace ChannelSystem

section One

variable {r : Registry Id} {s : SystemState L} {i j : Nat} {e p : Edge L}

theorem interleave_givesUnless (hside : r.isOneSided e.action = false) :
    GivesUnless (interleave r s i e) (Offer.FailsAlone r s ⟨i, e⟩)
      (Offer.alone? r s ⟨i, e⟩).toList := by
  have hfails (err : EvalError) : (interleave r s i e).run = .error err ↔
      (r.edgeEffect s.env e).run = .error err := by
    refine run_bind_eq_error_iff_of_ne ?_
    intro env? herr
    cases env? <;> cases herr
  refine .of_iff ?_ ?_
  · simp only [hfails, Registry.edgeEffect, run_guarded_eq_error_iff, exists_or, exists_and_left,
      Offer.FailsAlone, hside, true_and]
  · -- The move is there if the guard holds and the effect gives an environment.
    intro found hfound
    rcases run_bind_eq_ok_iff.mp hfound with ⟨env?, hedge, hmove⟩
    rcases run_guarded_eq_ok_iff.mp hedge with ⟨hguard, heffect⟩ | ⟨hguard, rfl⟩
    · cases env? with
      | none =>
          cases hmove
          simp [Offer.alone?, hside, hguard, heffect]
      | some env =>
          cases hmove
          simp [Offer.alone?, hside, hguard, heffect]
    · cases hmove
      simp [Offer.alone?, hside, hguard]

/-- The second edge is looked at only if its action is one-sided and the combined
    text matches, and then the guards, the first one first. -/
theorem meet_givesUnless (hij : i < j) (hside : r.isOneSided e.action = true) :
    GivesUnless (meet r s i e j p) (Offer.FailsTogether r s ⟨i, e⟩ ⟨j, p⟩)
      (Offer.together? r s ⟨i, e⟩ ⟨j, p⟩) := by
  have hmatches : Offer.Matches r ⟨i, e⟩ ⟨j, p⟩ ↔
      (r.isOneSided p.action && r.isMatching (combine e.action p.action)) = true := by
    rw [Bool.and_eq_true]
    exact ⟨fun h => h.2.2, fun h => ⟨hij, hside, h⟩⟩
  unfold meet
  by_cases hmatch : Offer.Matches r ⟨i, e⟩ ⟨j, p⟩
  · rw [if_pos (hmatches.mp hmatch)]
    have hfails (move : Environment → Move L) (err : EvalError) :
        ((do return (← r.rendezvousEffect s.env (combine e.action p.action)).map move :
            Eval Id (Option (Move L))).run = .error err) ↔
          (r.rendezvousEffect s.env (combine e.action p.action)).run = .error err := by
      refine run_bind_eq_error_iff_of_ne ?_
      intro env? herr
      cases herr
    refine .of_iff ?_ ?_
    · simp only [run_guarded_eq_error_iff, Registry.run_bothHold_eq_error_iff,
        Registry.run_bothHold_eq_true_iff, hfails, exists_or, exists_and_left,
        Offer.FailsTogether, hmatch, true_and, or_assoc, and_assoc]
    · -- The guards decide first, and the effect comes up only if both hold.
      intro found hfound
      rcases run_guarded_eq_ok_iff.mp hfound with ⟨hboth, hmove⟩ | ⟨hboth, rfl⟩
      · rcases Registry.run_bothHold_eq_true_iff.mp hboth with ⟨hfirst, hsecond⟩
        rcases run_bind_eq_ok_iff.mp hmove with ⟨env?, heffect, hmove⟩
        cases env? with
        | none =>
            cases hmove
            simp [Offer.together?, hfirst, hsecond, heffect]
        | some env =>
            cases hmove
            simp [Offer.together?, hmatch, hfirst, hsecond, heffect]
      · rcases run_guarded_eq_ok_iff.mp hboth with ⟨hfirst, hsecond⟩ | ⟨hfirst, -⟩
        · simp [Offer.together?, hfirst, hsecond]
        · simp [Offer.together?, hfirst]
  · rw [if_neg (mt hmatches.mpr hmatch)]
    simp only [Offer.FailsTogether, Offer.together?, hmatch, false_and, if_false]
    exact GivesUnless.pure none

end One

section Places

variable {locations : List L} {location : L} {n j k : Nat}

theorem zipIdx_getElem?_eq_some (h : locations.zipIdx[k]? = some (location, j)) :
    k = j ∧ j < locations.length := by
  rw [List.getElem?_zipIdx, Option.map_eq_some_iff] at h
  rcases h with ⟨l, hl, hpair⟩
  rw [Prod.mk.injEq, Nat.zero_add] at hpair
  have hk : k < locations.length := (List.getElem?_eq_some_iff.mp hl).1
  omega

theorem bounds_of_mem_drop_zipIdx (h : (location, j) ∈ locations.zipIdx.drop n) :
    n ≤ j ∧ j < locations.length := by
  rcases List.mem_iff_getElem?.mp h with ⟨k, hk⟩
  rw [List.getElem?_drop] at hk
  have := zipIdx_getElem?_eq_some hk
  omega

theorem lt_of_mem_take_zipIdx (h : (location, j) ∈ locations.zipIdx.take n) : j < n := by
  rcases List.mem_iff_getElem?.mp h with ⟨k, hk⟩
  rw [List.getElem?_take] at hk
  split at hk
  · next hlt =>
    have := zipIdx_getElem?_eq_some hk
    omega
  · cases hk

end Places

variable [DecidableEq L]

/-- The edges of process `i` that leave `location`. -/
def edgesAt (c : ChannelSystem L) (i : Nat) (location : L) : List (Edge L) :=
  match c.processes[i]? with
  | some g => g.edges.filter (·.source = location)
  | none => []

/-- The offers of processes that are in given locations. -/
def offersOf (c : ChannelSystem L) (places : List (L × Nat)) : List (Offer L) :=
  places.flatMap fun (location, i) => (c.edgesAt i location).map (⟨i, ·⟩)

/-- The offers of a state, process after process. -/
def offers (c : ChannelSystem L) (s : SystemState L) : List (Offer L) :=
  c.offersOf s.locations.zipIdx

variable {c : ChannelSystem L} {r : Registry Id} {s : SystemState L}

theorem mem_offersOf_iff {places : List (L × Nat)} {o : Offer L} :
    o ∈ c.offersOf places ↔
      ∃ location, (location, o.process) ∈ places ∧ o.edge ∈ c.edgesAt o.process location := by
  rcases o with ⟨i, e⟩
  simp only [offersOf, List.mem_flatMap, List.mem_map, Prod.exists, Offer.mk.injEq]
  constructor
  · intro h
    rcases h with ⟨location, j, hplace, e', he', rfl, rfl⟩
    exact ⟨location, hplace, he'⟩
  · intro h
    rcases h with ⟨location, hplace, he⟩
    exact ⟨location, i, hplace, e, he, rfl, rfl⟩

theorem exists_offersOf_iff {places : List (L × Nat)} {q : Offer L → Prop} :
    (∃ o ∈ c.offersOf places, q o) ↔
      ∃ place ∈ places, ∃ e ∈ c.edgesAt place.2 place.1, q ⟨place.2, e⟩ := by
  constructor
  · intro h
    rcases h with ⟨o, ho, hq⟩
    rcases mem_offersOf_iff.mp ho with ⟨location, hplace, he⟩
    exact ⟨(location, o.process), hplace, o.edge, he, hq⟩
  · intro h
    rcases h with ⟨⟨location, i⟩, hplace, e, he, hq⟩
    exact ⟨⟨i, e⟩, mem_offersOf_iff.mpr ⟨location, hplace, he⟩, hq⟩

theorem edgesOf_givesUnless {i : Nat} {location : L} (hi : i < c.processes.length) :
    GivesUnless (c.edgesOf i location) False (c.edgesAt i location) := by
  have hprocess : c.processes[i]? = some c.processes[i] := List.getElem?_eq_getElem hi
  rw [edgesOf_eq hprocess]
  simp only [edgesAt, hprocess]
  exact GivesUnless.pure _

theorem filterMap_offersOf {places : List (L × Nat)} {f : Offer L → Option (Move L)} :
    (c.offersOf places).filterMap f = places.flatMap fun place =>
      (c.edgesAt place.2 place.1).filterMap fun e => f ⟨place.2, e⟩ := by
  simp only [offersOf, List.filterMap_flatMap, List.filterMap_map]
  rfl

theorem flatMap_offersOf {places : List (L × Nat)} {f : Offer L → List (Move L)} :
    (c.offersOf places).flatMap f = places.flatMap fun place =>
      (c.edgesAt place.2 place.1).flatMap fun e => f ⟨place.2, e⟩ := by
  simp only [offersOf, List.flatMap_assoc, List.flatMap_map]

/-- The partners of an edge are looked for in the processes after its own. -/
theorem rendezvous_givesUnless_later {i : Nat} {e : Edge L}
    (hs : s.locations.length = c.processes.length) (hside : r.isOneSided e.action = true) :
    GivesUnless (c.rendezvous r s i e)
      (∃ p ∈ c.offersOf (s.locations.zipIdx.drop (i + 1)), Offer.FailsTogether r s ⟨i, e⟩ p)
      ((c.offersOf (s.locations.zipIdx.drop (i + 1))).filterMap
        (Offer.together? r s ⟨i, e⟩)) := by
  rw [exists_offersOf_iff, filterMap_offersOf]
  refine GivesUnless.collect ?_
  intro place hplace
  have hbounds := bounds_of_mem_drop_zipIdx hplace
  have hmeet : GivesUnless ((c.edgesAt place.2 place.1).mapM (meet r s i e place.2))
      (∃ p ∈ c.edgesAt place.2 place.1, Offer.FailsTogether r s ⟨i, e⟩ ⟨place.2, p⟩)
      ((c.edgesAt place.2 place.1).map fun p => Offer.together? r s ⟨i, e⟩ ⟨place.2, p⟩) :=
    GivesUnless.mapM fun p _ => meet_givesUnless hbounds.1 hside
  refine ((edgesOf_givesUnless (hs ▸ hbounds.2)).bind (hmeet.andThen (List.filterMap id))).congr
    ?_ ?_
  · rw [false_or]
  · rw [List.filterMap_map]
    rfl

/-- Any other offer would not match, so it does not matter which ones are left
    out. -/
theorem rendezvous_givesUnless {i : Nat} {e : Edge L}
    (hs : s.locations.length = c.processes.length) (hside : r.isOneSided e.action = true) :
    GivesUnless (c.rendezvous r s i e) (∃ p ∈ c.offers s, Offer.FailsTogether r s ⟨i, e⟩ p)
      ((c.offers s).filterMap (Offer.together? r s ⟨i, e⟩)) := by
  let before := c.offersOf (s.locations.zipIdx.take (i + 1))
  let later := c.offersOf (s.locations.zipIdx.drop (i + 1))
  have hsplit : c.offers s = before ++ later := by
    rw [offers, ← List.take_append_drop (i + 1) s.locations.zipIdx]
    exact List.flatMap_append
  have hbefore : ∀ p ∈ before, ¬ Offer.Matches r ⟨i, e⟩ p := by
    intro p hp hmatch
    rcases mem_offersOf_iff.mp hp with ⟨location, hplace, -⟩
    have hlt : p.process < i + 1 := lt_of_mem_take_zipIdx hplace
    have hgt : i < p.process := hmatch.1
    omega
  -- The places up to process `i` add no failure and no move.
  refine (rendezvous_givesUnless_later hs hside).congr ?_ ?_
  · rw [hsplit]
    constructor
    · intro h
      rcases h with ⟨p, hp, hfails⟩
      exact ⟨p, List.mem_append_right before hp, hfails⟩
    · intro h
      rcases h with ⟨p, hp, hfails⟩
      rcases List.mem_append.mp hp with hp | hp
      · exact absurd hfails.1 (hbefore p hp)
      · exact ⟨p, hp, hfails⟩
  · have hnone : before.filterMap (Offer.together? r s ⟨i, e⟩) = [] := by
      rw [List.filterMap_eq_nil_iff]
      intro p hp
      exact if_neg (hbefore p hp)
    rw [hsplit, List.filterMap_append, hnone, List.nil_append]

/-- The moves in which an offer is taken, alone or as the first of two. -/
def movesFrom (c : ChannelSystem L) (r : Registry Id) (s : SystemState L) (o : Offer L) :
    List (Move L) :=
  (o.alone? r s).toList ++ (c.offers s).filterMap (o.together? r s)

/-- The failures on the way to these moves. -/
def FailsFrom (c : ChannelSystem L) (r : Registry Id) (s : SystemState L) (o : Offer L) : Prop :=
  o.FailsAlone r s ∨ ∃ p ∈ c.offers s, o.FailsTogether r s p

theorem movesOf_givesUnless {i : Nat} {location : L}
    (hs : s.locations.length = c.processes.length) (hi : i < c.processes.length) :
    GivesUnless (c.movesOf r s i location)
      (∃ e ∈ c.edgesAt i location, c.FailsFrom r s ⟨i, e⟩)
      ((c.edgesAt i location).flatMap fun e => c.movesFrom r s ⟨i, e⟩) := by
  have hedge : ∀ e ∈ c.edgesAt i location, GivesUnless
      (if r.isOneSided e.action then c.rendezvous r s i e else interleave r s i e)
      (c.FailsFrom r s ⟨i, e⟩) (c.movesFrom r s ⟨i, e⟩) := by
    intro e he
    unfold FailsFrom movesFrom
    -- An action is one-sided or not, so one of the two parts is empty.
    cases hside : r.isOneSided e.action with
    | true =>
        refine (rendezvous_givesUnless hs hside).congr ?_ ?_
        · simp [Offer.FailsAlone, hside]
        · simp [Offer.alone?, hside]
    | false =>
        refine (interleave_givesUnless hside).congr ?_ ?_
        · simp [Offer.FailsTogether, Offer.Matches, hside]
        · simp [Offer.together?, Offer.Matches, hside]
  refine ((edgesOf_givesUnless hi).bind (GivesUnless.collect hedge)).congr ?_ rfl
  rw [false_or]

theorem moves_givesUnless (hs : s.locations.length = c.processes.length) :
    GivesUnless (c.moves r s) (∃ o ∈ c.offers s, c.FailsFrom r s o)
      ((c.offers s).flatMap (c.movesFrom r s)) := by
  rw [offers, exists_offersOf_iff, flatMap_offersOf]
  refine GivesUnless.collect ?_
  intro place hplace
  have hlt : place.2 < s.locations.length := (bounds_of_mem_drop_zipIdx (n := 0) hplace).2
  exact movesOf_givesUnless hs (hs ▸ hlt)

/-- The moves of a state are there exactly if nothing fails on the way to a move of
    one offer or of two, and then they are the moves of the offers and of the pairs
    of offers. -/
theorem moves_perm_offers (c : ChannelSystem L) (r : Registry Id) (s : SystemState L)
    (hs : s.locations.length = c.processes.length) :
    ((∃ moves, (c.moves r s).run = .ok moves) ↔
      (∀ o ∈ c.offers s, ¬ o.FailsAlone r s) ∧
        ∀ o ∈ c.offers s, ∀ p ∈ c.offers s, ¬ o.FailsTogether r s p) ∧
    ∀ moves, (c.moves r s).run = .ok moves →
      moves.Perm ((c.offers s).filterMap (Offer.alone? r s) ++
        (c.offers s).flatMap fun o => (c.offers s).filterMap (o.together? r s)) := by
  have hmoves := moves_givesUnless (c := c) (r := r) hs
  constructor
  · rw [hmoves.exists_run_eq_ok_iff]
    constructor
    · intro hnot
      constructor
      · intro o ho halone
        exact hnot ⟨o, ho, Or.inl halone⟩
      · intro o ho p hp htogether
        exact hnot ⟨o, ho, Or.inr ⟨p, hp, htogether⟩⟩
    · intro h hfails
      rcases hfails with ⟨o, ho, halone | ⟨p, hp, htogether⟩⟩
      · exact h.1 o ho halone
      · exact h.2 o ho p hp htogether
  · intro moves hok
    rw [hmoves.eq_of_run_eq_ok hok, List.filterMap_eq_flatMap_toList]
    exact (List.flatMap_append_perm _ _ _).symm

/-- A process that sends a number or counts on, and one that waits for a number. -/
def counting : ChannelSystem String where
  processes :=
    [⟨"counter", .empty, .empty, [⟨"on", "", "c!n+1", "off"⟩, ⟨"on", "n<9", "n:=n+1", "on"⟩], []⟩,
      ⟨"reader", .empty, .empty, [⟨"on", "", "c?m", "off"⟩], []⟩]

theorem counting_moves_perm_offers :
    let r : Registry Id := Registry.standard
    let start : SystemState String := ⟨["on", "on"], Environment.empty.insert "n" (.int 1)⟩
    let moves : List (Move String) :=
      [⟨⟨["off", "off"], start.env.insert "m" (.int 2)⟩, "c!n+1|c?m"⟩,
        ⟨⟨["on", "on"], start.env.insert "n" (.int 2)⟩, "n:=n+1"⟩]
    (counting.moves r start).run = .ok moves ∧
      moves.Perm ((counting.offers start).filterMap (Offer.alone? r start) ++
        (counting.offers start).flatMap fun o =>
          (counting.offers start).filterMap (o.together? r start)) := by
  intro r start moves
  have hrun : (counting.moves r start).run = .ok moves :=
    run_eq_ok_of_toOption (by decide +kernel)
  exact ⟨hrun, (moves_perm_offers counting r start rfl).2 moves hrun⟩

end ChannelSystem

end Interleaving
