import Interleaving.Proofs.ChannelSystem.Steps
import Interleaving.Proofs.Script.Rendezvous
import Mathlib.Data.Fin.Basic
import Mathlib.Data.List.Forall2
import Mathlib.Logic.Equiv.Basic

/-!
# Processes in Another Order

The order of the processes decides which of two partners comes first in a
rendezvous, and nothing else. If the processes get new numbers, and a state its
locations in the new order, then the moves of the state are the same moves: each is
taken by the same processes along the same edges. The text of an ordinary action
stays; the two halves of a combined text change places if their processes do.

Failures are a different matter. The guard of the second partner is looked at only if
that of the first holds, so a state may have moves in one order of the processes and
fail in the other.

A permutation of the numbers below `n` is made one of all numbers, and a list is
rearranged by looking up each place at its old number. So most lemmas need no bounds.

## Main definitions

* `newNumber`: The new number of a process.
* `rearrange`: A list in the new order.
* `Registry.Swaps`: A registry for which the order of two partners does not matter.
* `Taking`: Who takes part in a move, along which edges.
* `ChannelSystem.Takes`: What leads from one state to another.

## Theorems

* `getElem?_rearrange`, `rearrange_set`, `rearrange_symm`: Lists in the new order.
* `ChannelSystem.mem_offers_renumber_iff`: The offers of a state.
* `ChannelSystem.mem_moves_iff_takes`: The moves of a state by what takes part in them.
* `ChannelSystem.Takes.renumber`, `ChannelSystem.takes_of_renumber`: The same parts are
  taken in both orders.
-/

namespace Interleaving

section Numbers

variable {n : Nat} {α β : Type} {π : Equiv.Perm (Fin n)}

/-- The new number of a process. Numbers that belong to none stay. -/
def newNumber (π : Equiv.Perm (Fin n)) : Equiv.Perm Nat :=
  π.extendDomain Fin.equivSubtype

/-- A list with a place for each process, in the new order. -/
def rearrange (π : Equiv.Perm (Fin n)) (l : List α) : List α :=
  (List.range n).filterMap fun i => l[(newNumber π).symm i]?

theorem newNumber_val (π : Equiv.Perm (Fin n)) (i : Fin n) : newNumber π i = π i :=
  Equiv.Perm.extendDomain_apply_image π Fin.equivSubtype i

theorem newNumber_lt (π : Equiv.Perm (Fin n)) {i : Nat} (h : i < n) : newNumber π i < n := by
  rw [newNumber_val π ⟨i, h⟩]
  exact (π ⟨i, h⟩).isLt

theorem symm_newNumber (π : Equiv.Perm (Fin n)) : (newNumber π).symm = newNumber π.symm :=
  Equiv.Perm.extendDomain_symm π Fin.equivSubtype

theorem newNumber_symm_newNumber (π : Equiv.Perm (Fin n)) (i : Nat) :
    newNumber π.symm (newNumber π i) = i := by
  rw [← symm_newNumber, Equiv.symm_apply_apply]

theorem newNumber_lt_iff (π : Equiv.Perm (Fin n)) {i : Nat} : newNumber π i < n ↔ i < n := by
  refine ⟨?_, newNumber_lt π⟩
  intro h
  have := newNumber_lt π.symm h
  rw [newNumber_symm_newNumber] at this
  exact this

/-- Every place of the new order is filled. -/
theorem map_some_rearrange {l : List α} (h : l.length = n) (π : Equiv.Perm (Fin n)) :
    (rearrange π l).map some = (List.range n).map fun i => l[(newNumber π).symm i]? := by
  rw [rearrange, List.map_filterMap_some_eq_filter_map_isSome, List.filter_eq_self]
  intro place hplace
  rcases List.mem_map.mp hplace with ⟨i, hi, rfl⟩
  have hlt : (newNumber π).symm i < l.length := by
    rw [symm_newNumber, h]
    exact newNumber_lt π.symm (List.mem_range.mp hi)
  rw [List.getElem?_eq_getElem hlt]
  rfl

theorem length_rearrange {l : List α} (h : l.length = n) (π : Equiv.Perm (Fin n)) :
    (rearrange π l).length = n := by
  have := congrArg List.length (map_some_rearrange h π)
  simpa using this

theorem getElem?_rearrange {l : List α} (h : l.length = n) (π : Equiv.Perm (Fin n)) (i : Nat) :
    (rearrange π l)[newNumber π i]? = l[i]? := by
  by_cases hi : i < n
  · have hplace := congrArg (·[newNumber π i]?) (map_some_rearrange h π)
    simp only [List.getElem?_map, List.getElem?_range (newNumber_lt π hi), Option.map_some,
      Equiv.symm_apply_apply] at hplace
    have hlt : newNumber π i < (rearrange π l).length := by
      rw [length_rearrange h π]
      exact newNumber_lt π hi
    rw [List.getElem?_eq_getElem hlt, Option.map_some, Option.some.injEq] at hplace
    rw [← hplace]
    exact List.getElem?_eq_getElem hlt
  · have hi' : ¬ newNumber π i < n := mt (newNumber_lt_iff π).mp hi
    have hlength := length_rearrange h π
    rw [List.getElem?_eq_none (by omega), List.getElem?_eq_none (by omega)]

/-- Lists are compared place by place, and every place has a new number. -/
theorem ext_newNumber {l l' : List α} (π : Equiv.Perm (Fin n))
    (h : ∀ i, l[newNumber π i]? = l'[newNumber π i]?) : l = l' := by
  refine List.ext_getElem? ?_
  intro i
  have := h ((newNumber π).symm i)
  rw [Equiv.apply_symm_apply] at this
  exact this

theorem rearrange_set {l : List α} (h : l.length = n) (π : Equiv.Perm (Fin n)) (i : Nat) (x : α) :
    rearrange π (l.set i x) = (rearrange π l).set (newNumber π i) x := by
  refine ext_newNumber π ?_
  intro j
  have hset : (l.set i x).length = n := by rw [List.length_set, h]
  rw [getElem?_rearrange hset π, List.getElem?_set, List.getElem?_set, length_rearrange h π,
    getElem?_rearrange h π, h]
  simp only [EmbeddingLike.apply_eq_iff_eq, newNumber_lt_iff]

theorem rearrange_symm {l : List α} (h : l.length = n) (π : Equiv.Perm (Fin n)) :
    rearrange π.symm (rearrange π l) = l := by
  refine ext_newNumber π.symm ?_
  intro i
  rw [getElem?_rearrange (length_rearrange h π) π.symm]
  have := getElem?_rearrange h π (newNumber π.symm i)
  rw [← symm_newNumber, Equiv.apply_symm_apply] at this
  rw [this, symm_newNumber]

theorem forall₂_rearrange {R : α → β → Prop} {l : List α} {l' : List β} (hl : l.length = n)
    (π : Equiv.Perm (Fin n)) (h : List.Forall₂ R l l') :
    List.Forall₂ R (rearrange π l) (rearrange π l') := by
  have hl' : l'.length = n := by rw [← h.length_eq, hl]
  rw [List.forall₂_iff_get]
  refine ⟨by rw [length_rearrange hl, length_rearrange hl'], ?_⟩
  intro i hi hi'
  -- What stands at a place is what stood at the old number, in both lists.
  have hold : (newNumber π).symm i < n := by
    rw [symm_newNumber]
    exact newNumber_lt π.symm (length_rearrange hl π ▸ hi)
  have hfirst := getElem?_rearrange hl π ((newNumber π).symm i)
  have hsecond := getElem?_rearrange hl' π ((newNumber π).symm i)
  rw [Equiv.apply_symm_apply, List.getElem?_eq_getElem hi,
    List.getElem?_eq_getElem (hl.symm ▸ hold), Option.some.injEq] at hfirst
  rw [Equiv.apply_symm_apply, List.getElem?_eq_getElem hi',
    List.getElem?_eq_getElem (hl'.symm ▸ hold), Option.some.injEq] at hsecond
  rw [List.get_eq_getElem, List.get_eq_getElem, hfirst, hsecond]
  exact h.get (hl.symm ▸ hold) (hl'.symm ▸ hold)

end Numbers

/-- Which of two one-sided actions comes first in a combined text makes no difference
    to what they do together. -/
def Registry.Swaps (r : Registry Id) : Prop :=
  ∀ a b, r.isOneSided a = true → r.isOneSided b = true → r.isMatching (combine a b) = true →
    r.isMatching (combine b a) = true ∧
      ∀ env, (r.rendezvousEffect env (combine b a)).run = (r.rendezvousEffect env (combine a b)).run

theorem Registry.standard_swaps : (Registry.standard : Registry Id).Swaps :=
  fun _ _ => Script.standard_combine_swap

variable {L : Type} {n : Nat}

/-- The system with its processes in the new order. -/
def ChannelSystem.renumber (π : Equiv.Perm (Fin n)) (c : ChannelSystem L) : ChannelSystem L :=
  ⟨rearrange π c.processes⟩

/-- The state with its locations in the new order. -/
def SystemState.renumber (π : Equiv.Perm (Fin n)) (s : SystemState L) : SystemState L :=
  ⟨rearrange π s.locations, s.env⟩

/-- The same edge, of the process with the new number. -/
def Offer.renumber (π : Equiv.Perm (Fin n)) (o : Offer L) : Offer L :=
  ⟨newNumber π o.process, o.edge⟩

/-- What takes part in a move: one offer, or two with the one of the earlier process
    first. -/
inductive Taking (L : Type) where
  | alone (o : Offer L)
  | together (o p : Offer L)

namespace Taking

open ChannelSystem

/-- The text a move is recorded under. -/
def action : Taking L → String
  | alone o => o.edge.action
  | together o p => combine o.edge.action p.edge.action

/-- The offers that are taken. -/
def offers : Taking L → List (Offer L)
  | alone o => [o]
  | together o p => [o, p]

/-- The move, if there is one. -/
def move? (r : Registry Id) (s : SystemState L) : Taking L → Option (Move L)
  | alone o => o.alone? r s
  | together o p => o.together? r s p

/-- The same parts under the new numbers. Two offers change places if the new numbers
    of their processes are the other way round. -/
def renumber (π : Equiv.Perm (Fin n)) : Taking L → Taking L
  | alone o => alone (o.renumber π)
  | together o p =>
    if newNumber π o.process < newNumber π p.process then
      together (o.renumber π) (p.renumber π)
    else together (p.renumber π) (o.renumber π)

end Taking

theorem SystemState.renumber_symm {s : SystemState L} (h : s.locations.length = n)
    (π : Equiv.Perm (Fin n)) : (s.renumber π).renumber π.symm = s := by
  simp only [renumber, rearrange_symm h π]

theorem SystemState.renumber_injective {s t : SystemState L} (hs : s.locations.length = n)
    (ht : t.locations.length = n) {π : Equiv.Perm (Fin n)} (h : s.renumber π = t.renumber π) :
    s = t := by
  rw [← renumber_symm hs π, h, renumber_symm ht π]

theorem ChannelSystem.renumber_symm {c : ChannelSystem L} (h : c.processes.length = n)
    (π : Equiv.Perm (Fin n)) : (c.renumber π).renumber π.symm = c := by
  simp only [renumber, rearrange_symm h π]

theorem Offer.renumber_symm (π : Equiv.Perm (Fin n)) (o : Offer L) :
    (o.renumber π).renumber π.symm = o := by
  simp only [renumber, newNumber_symm_newNumber]

namespace Taking

variable {r : Registry Id} {s : SystemState L} {k : Taking L} {move : ChannelSystem.Move L}

theorem action_of_move? (h : k.move? r s = some move) : move.action = k.action := by
  cases k with
  | alone o =>
      rcases Offer.alone?_eq_some_iff.mp h with ⟨-, -, env, -, rfl⟩
      rfl
  | together o p =>
      rcases Offer.together?_eq_some_iff.mp h with ⟨-, -, -, env, -, rfl⟩
      rfl

theorem length_of_move? (h : k.move? r s = some move) :
    move.next.locations.length = s.locations.length := by
  cases k with
  | alone o => exact Offer.length_of_alone? h
  | together o p => exact Offer.length_of_together? h

theorem renumber_together_of_lt {π : Equiv.Perm (Fin n)} {o p : Offer L}
    (h : newNumber π o.process < newNumber π p.process) :
    (together o p).renumber π = together (o.renumber π) (p.renumber π) :=
  if_pos h

theorem renumber_together_of_not_lt {π : Equiv.Perm (Fin n)} {o p : Offer L}
    (h : ¬ newNumber π o.process < newNumber π p.process) :
    (together o p).renumber π = together (p.renumber π) (o.renumber π) :=
  if_neg h

theorem mem_offers_renumber_iff {π : Equiv.Perm (Fin n)} {q : Offer L} :
    q ∈ (k.renumber π).offers ↔ ∃ o ∈ k.offers, q = o.renumber π := by
  cases k with
  | alone o => simp [renumber, offers]
  | together o p =>
      by_cases horder : newNumber π o.process < newNumber π p.process
      · simp [renumber_together_of_lt horder, offers]
      · simp [renumber_together_of_not_lt horder, offers, or_comm]

/-- A pair that is taken is in order, so it comes back to that order. -/
theorem renumber_symm (h : k.move? r s = some move) (π : Equiv.Perm (Fin n)) :
    (k.renumber π).renumber π.symm = k := by
  cases k with
  | alone o => simp only [renumber, Offer.renumber_symm]
  | together o p =>
      have hlt : o.process < p.process := (Offer.together?_eq_some_iff.mp h).1.1
      -- Numbers come back, so a pair that was turned round is turned round again.
      have hback : ∀ q : Offer L, newNumber π.symm (q.renumber π).process = q.process :=
        fun q => newNumber_symm_newNumber π q.process
      by_cases horder : newNumber π o.process < newNumber π p.process
      · rw [renumber_together_of_lt horder,
          renumber_together_of_lt (by rw [hback, hback]; exact hlt), Offer.renumber_symm,
          Offer.renumber_symm]
      · rw [renumber_together_of_not_lt horder,
          renumber_together_of_not_lt (by rw [hback, hback]; omega),
          Offer.renumber_symm, Offer.renumber_symm]

end Taking

namespace Offer

open ChannelSystem

variable {r : Registry Id} {s t : SystemState L} {o p : Offer L}

/-- An offer that is taken alone does not depend on the other processes. -/
theorem alone?_renumber (hs : s.locations.length = n) (π : Equiv.Perm (Fin n))
    {action : String} (h : o.alone? r s = some ⟨t, action⟩) :
    (o.renumber π).alone? r (s.renumber π) = some ⟨t.renumber π, action⟩ := by
  rcases alone?_eq_some_iff.mp h with ⟨hside, hguard, env, heffect, hmove⟩
  cases hmove
  refine alone?_eq_some_iff.mpr ⟨hside, hguard, env, heffect, ?_⟩
  simp only [SystemState.renumber, renumber, rearrange_set hs]

/-- Partners that meet in an order may meet in the other one. -/
theorem together?_swap (hr : r.Swaps)
    (h : o.together? r s p = some ⟨t, combine o.edge.action p.edge.action⟩) {i j : Nat}
    (hji : j < i) (s' : SystemState L) (henv : s'.env = s.env) :
    (⟨j, p.edge⟩ : Offer L).together? r s' ⟨i, o.edge⟩ =
      some ⟨⟨(s'.locations.set i o.edge.target).set j p.edge.target, t.env⟩,
        combine p.edge.action o.edge.action⟩ := by
  rcases together?_eq_some_iff.mp h with
    ⟨⟨-, hfirst, hsecond, hmatching⟩, hguard, hguard', env, heffect, hmove⟩
  cases hmove
  rcases hr _ _ hfirst hsecond hmatching with ⟨hmatching', heffect'⟩
  refine together?_eq_some_iff.mpr ⟨⟨hji, hsecond, hfirst, hmatching'⟩, ?_, ?_, env, ?_, ?_⟩
  · rw [henv]
    exact hguard'
  · rw [henv]
    exact hguard
  · rw [henv, heffect']
    exact heffect
  · rw [List.set_comm _ _ (Nat.ne_of_gt hji)]

theorem together?_renumber (hr : r.Swaps) (hs : s.locations.length = n) (π : Equiv.Perm (Fin n))
    (h : o.together? r s p = some ⟨t, combine o.edge.action p.edge.action⟩) :
    ((Taking.together o p).renumber π).move? r (s.renumber π) =
      some ⟨t.renumber π, ((Taking.together o p).renumber π).action⟩ := by
  rcases together?_eq_some_iff.mp h with
    ⟨⟨hlt, hsides⟩, hguard, hguard', env, heffect, hmove⟩
  have hnext : t.renumber π = ⟨((rearrange π s.locations).set (newNumber π o.process)
      o.edge.target).set (newNumber π p.process) p.edge.target, env⟩ := by
    rw [(Move.mk.inj hmove).1, SystemState.renumber,
      rearrange_set (by rw [List.length_set, hs]), rearrange_set hs]
  rw [hnext]
  by_cases horder : newNumber π o.process < newNumber π p.process
  · rw [Taking.renumber_together_of_lt horder]
    exact together?_eq_some_iff.mpr ⟨⟨horder, hsides⟩, hguard, hguard', env, heffect, rfl⟩
  · -- The partner that came second has the smaller number now.
    have hne : newNumber π o.process ≠ newNumber π p.process :=
      (newNumber π).injective.ne (Nat.ne_of_lt hlt)
    have hswap := together?_swap hr h (Nat.lt_of_le_of_ne (Nat.le_of_not_lt horder) hne.symm)
      (s.renumber π) rfl
    have henv : t.env = env := congrArg SystemState.env (Move.mk.inj hmove).1
    rw [henv] at hswap
    rw [Taking.renumber_together_of_not_lt horder]
    exact hswap

end Offer

namespace ChannelSystem

variable [DecidableEq L] {c : ChannelSystem L} {r : Registry Id} {s t : SystemState L}
  {k : Taking L}

/-- Parts that the state offers lead from one state to another. -/
structure Takes (c : ChannelSystem L) (r : Registry Id) (s : SystemState L) (k : Taking L)
    (t : SystemState L) : Prop where
  mem_offers : ∀ o ∈ k.offers, o ∈ c.offers s
  move?_eq : k.move? r s = some ⟨t, k.action⟩

theorem mem_moves_iff_takes (hs : s.Fits c) {moves : List (Move L)}
    (h : (c.moves r s).run = .ok moves) {move : Move L} :
    move ∈ moves ↔ ∃ k, c.Takes r s k move.next ∧ move.action = k.action := by
  rw [mem_moves_iff hs h]
  constructor
  · intro hmove
    rcases hmove with ⟨o, ho, halone | ⟨p, hp, htogether⟩⟩
    · have haction := Taking.action_of_move? (k := .alone o) halone
      refine ⟨.alone o, ⟨by simpa [Taking.offers] using ho, ?_⟩, haction⟩
      rw [← haction]
      exact halone
    · have haction := Taking.action_of_move? (k := .together o p) htogether
      refine ⟨.together o p, ⟨by simpa [Taking.offers] using ⟨ho, hp⟩, ?_⟩, haction⟩
      rw [← haction]
      exact htogether
  · intro hmove
    rcases hmove with ⟨k, ⟨hoffers, hnext⟩, haction⟩
    rw [← haction] at hnext
    cases k with
    | alone o => exact ⟨o, hoffers o (by simp [Taking.offers]), Or.inl hnext⟩
    | together o p =>
        exact ⟨o, hoffers o (by simp [Taking.offers]),
          Or.inr ⟨p, hoffers p (by simp [Taking.offers]), hnext⟩⟩

theorem edgesAt_renumber (hc : c.processes.length = n) (π : Equiv.Perm (Fin n)) (i : Nat)
    (location : L) : (c.renumber π).edgesAt (newNumber π i) location = c.edgesAt i location := by
  simp only [edgesAt, renumber, getElem?_rearrange hc π i]

/-- What a process offers depends on the process and its location alone. -/
theorem mem_offers_renumber_iff (hc : c.processes.length = n) (hs : s.locations.length = n)
    (π : Equiv.Perm (Fin n)) {o : Offer L} :
    o.renumber π ∈ (c.renumber π).offers (s.renumber π) ↔ o ∈ c.offers s := by
  simp only [offers, mem_offersOf_iff, List.mk_mem_zipIdx_iff_getElem?, Offer.renumber,
    SystemState.renumber, getElem?_rearrange hs π, edgesAt_renumber hc π]

/-- What leads from one state to another does so in the new order. -/
theorem Takes.renumber (h : c.Takes r s k t) (hr : r.Swaps) (hc : c.processes.length = n)
    (hs : s.locations.length = n) (π : Equiv.Perm (Fin n)) :
    (c.renumber π).Takes r (s.renumber π) (k.renumber π) (t.renumber π) where
  mem_offers := by
    intro q hq
    rcases Taking.mem_offers_renumber_iff.mp hq with ⟨o, ho, rfl⟩
    exact (mem_offers_renumber_iff hc hs π).mpr (h.mem_offers o ho)
  move?_eq := by
    have hmove := h.move?_eq
    cases k with
    | alone o => exact Offer.alone?_renumber hs π hmove
    | together o p => exact Offer.together?_renumber hr hs π hmove

/-- In the new order nothing else leads anywhere: all can be put back. -/
theorem takes_of_renumber (hr : r.Swaps) (hc : c.processes.length = n)
    (hs : s.locations.length = n) {π : Equiv.Perm (Fin n)}
    (h : (c.renumber π).Takes r (s.renumber π) k t) :
    ∃ k' t', c.Takes r s k' t' ∧ k = k'.renumber π ∧ t = t'.renumber π := by
  have hc' : (c.renumber π).processes.length = n := length_rearrange hc π
  have hs' : (s.renumber π).locations.length = n := length_rearrange hs π
  have ht : t.locations.length = n := by
    rw [← hs']
    exact Taking.length_of_move? h.move?_eq
  -- The inverse permutation leads from the new system back to the old one.
  have hback := h.renumber hr hc' hs' π.symm
  rw [renumber_symm hc π, SystemState.renumber_symm hs π] at hback
  refine ⟨k.renumber π.symm, t.renumber π.symm, hback, ?_, ?_⟩
  · exact (Taking.renumber_symm h.move?_eq π.symm).symm
  · exact (SystemState.renumber_symm ht π.symm).symm

end ChannelSystem

end Interleaving
