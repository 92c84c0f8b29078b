import Interleaving.Proofs.Exploration.Asking
import Interleaving.Proofs.Exploration.Labels
import Mathlib.Data.List.Dedup

/-!
# How a Search Grows a System

Whatever its inputs, a search changes a transition system in two ways: it records
a step, or it adds a state that is not there yet while the limits allow one more.
`Grows` is the closure of the two. It forgets which steps were recorded and in
what order, and for that it needs no invariant: everything here holds of any
search that ends without a failure, wherever it began.

What follows from it concerns the states. They are never removed or renumbered, so
the states of the beginning are the first ones of the end; and the state limit
bounds their number, unless there were more to begin with.

## Main definitions

* `TransitionSystem.Grows`: Steps and states are added within the limits.
* `Search.Extends`: A search grows, and what has come in waits for the next level.

## Theorems

* `Search.record_cases`: The three things that can have happened to a step.
* `Dynamics.follow_extends`, `Dynamics.expand_grows`, `Dynamics.levels_grows`: The
  loops of a search, from the inside out.
* `Dynamics.run_explore_eq_map`: An exploration is a search with labels.
* `TransitionSystem.Grows.size_le_max`: The state limit bounds the states.
* `TransitionSystem.size_eq_dedup_length`: Each initial state is entered once.
-/

namespace Interleaving

variable {σ ι : Type} [DecidableEq σ]

/-- The second system comes from the first by recording steps, and by adding new
    states as long as the limits allow it. -/
inductive TransitionSystem.Grows (limits : Limits) (system : TransitionSystem σ String String) :
    TransitionSystem σ String String → Prop where
  | refl : Grows limits system system
  | withStep {grown : TransitionSystem σ String String} (h : Grows limits system grown)
      (step : Transition Nat String) : Grows limits system (grown.withStep step)
  | withState {grown : TransitionSystem σ String String} (h : Grows limits system grown) {s : σ}
      (hs : s ∉ grown.states) (hlimit : limits.statesReached grown.states.size = false) :
      Grows limits system (grown.withState s)

namespace TransitionSystem.Grows

variable {limits : Limits} {system mid grown : TransitionSystem σ String String}

theorem trans (h : Grows limits system mid) (h' : Grows limits mid grown) :
    Grows limits system grown := by
  induction h' with
  | refl => exact h
  | withStep _ step ih => exact ih.withStep step
  | withState _ hs hlimit ih => exact ih.withState hs hlimit

theorem states_prefix (h : Grows limits system grown) :
    system.states.toList <+: grown.states.toList := by
  induction h with
  | refl => exact List.prefix_refl _
  | withStep _ step ih => exact ih
  | @withState grown _ s hs _ ih =>
      rw [states_withState, OrderedSet.toList_insert_of_not_mem hs]
      exact ih.trans (List.prefix_append _ _)

/-- States keep their numbers. -/
theorem state?_eq_some (h : Grows limits system grown) {id : Nat} {s : σ}
    (hs : system.state? id = some s) : grown.state? id = some s := by
  rcases h.states_prefix with ⟨more, hmore⟩
  have hlt : id < system.states.toList.length := lt_size_of_state? hs
  unfold state? OrderedSet.get? at hs ⊢
  rw [← hmore, List.getElem?_append_left hlt]
  exact hs

theorem initial_eq (h : Grows limits system grown) : grown.initial = system.initial := by
  induction h with
  | refl => rfl
  | withStep _ step ih => exact ih
  | withState _ hs _ ih => exact ih

theorem propositions_eq (h : Grows limits system grown) :
    grown.propositions = system.propositions := by
  induction h with
  | refl => rfl
  | withStep _ step ih => exact ih
  | withState _ hs _ ih => exact ih

theorem mem_transitions (h : Grows limits system grown) {step : Transition Nat String}
    (hstep : step ∈ system.transitions) : step ∈ grown.transitions := by
  induction h with
  | refl => exact hstep
  | withStep _ step ih => exact OrderedSet.mem_insert.mpr (Or.inr ih)
  | withState _ hs _ ih => exact ih

theorem mem_actions (h : Grows limits system grown) {action : String}
    (haction : action ∈ system.actions) : action ∈ grown.actions := by
  induction h with
  | refl => exact haction
  | withStep _ step ih => exact OrderedSet.mem_insert.mpr (Or.inr ih)
  | withState _ hs _ ih => exact ih

/-- A new state has no labels, and no state gets any. -/
theorem labels_eq (h : Grows limits system grown)
    (hempty : system.labels = List.replicate system.states.size .empty) :
    grown.labels = List.replicate grown.states.size .empty := by
  induction h with
  | refl => exact hempty
  | withStep _ step ih => exact ih
  | @withState grown _ s hs _ ih =>
      rw [size_withState hs, List.replicate_succ', ← ih]
      rfl

theorem size_le (h : Grows limits system grown) : system.states.size ≤ grown.states.size :=
  h.states_prefix.length_le

/-- A state comes in only while there are fewer than the limit, so the limit is
    exceeded only if it was from the beginning. -/
theorem size_le_max (h : Grows limits system grown) {n : Nat} (hn : limits.maxStates = some n) :
    grown.states.size ≤ max n system.states.size := by
  induction h with
  | refl => exact Nat.le_max_right _ _
  | withStep _ step ih => exact ih
  | @withState grown _ s hs hlimit ih =>
      have hlt : grown.states.size < n := by
        rw [Limits.statesReached, hn, Limits.reached, decide_eq_false_iff_not] at hlimit
        omega
      rw [size_withState hs]
      exact Nat.le_trans hlt (Nat.le_max_left _ _)

end TransitionSystem.Grows

namespace Search

variable {limits : Limits} {search search' : Search σ}

omit [DecidableEq σ] in
/-- A transition that was accepted is there, and nothing else has changed. -/
theorem eq_of_connect_eq_ok {step : Transition Nat String} (h : search.connect step = .ok search') :
    search' = { search with system := search.system.withStep step } := by
  rcases bind_eq_ok_iff.mp h with ⟨system, hafter, hsearch⟩
  rcases TransitionSystem.after_enterStep_eq_ok_iff.mp hafter with ⟨-, -, rfl⟩
  cases hsearch
  rfl

/-- The three things that can have happened to a step. -/
theorem record_cases {source : Nat} {action : String} {target : σ}
    (h : search.record limits source action target = .ok search') :
    (∃ id, search.system.state? id = some target ∧
        search' = { search with system := search.system.withStep ⟨source, action, id⟩ }) ∨
      search' = { search with full := true } ∨
      (target ∉ search.system.states ∧
        limits.statesReached search.system.states.size = false ∧
        search' = { search with
          system := (search.system.withState target).withStep
            ⟨source, action, search.system.states.size⟩
          fresh := search.fresh ++ [search.system.states.size] }) := by
  cases hid : search.system.idOf? target with
  | some id =>
      rw [record, hid] at h
      exact Or.inl ⟨id, TransitionSystem.idOf?_eq_some_iff.mp hid, eq_of_connect_eq_ok h⟩
  | none =>
      have htarget := TransitionSystem.idOf?_eq_none_iff.mp hid
      cases hlimit : limits.statesReached search.system.states.size with
      | true =>
          rw [record_of_full htarget hlimit, Except.ok.injEq] at h
          exact Or.inr (Or.inl h.symm)
      | false =>
          rw [record, hid] at h
          simp only [hlimit, TransitionSystem.insertState_of_not_mem htarget] at h
          exact Or.inr (Or.inr ⟨htarget, rfl, eq_of_connect_eq_ok h⟩)

/-- What recording steps does to a search: it grows, and the states that come in have
    the property `p` and wait for the next level. -/
structure Extends (limits : Limits) (p : σ → Prop) (search search' : Search σ) : Prop where
  grows : search.system.Grows limits search'.system
  fresh_eq : search'.fresh = search.fresh ++ List.range' search.system.states.size
    (search'.system.states.size - search.system.states.size)
  mem_states : ∀ s ∈ search'.system.states, s ∈ search.system.states ∨ p s

namespace Extends

variable {p q : σ → Prop} {mid : Search σ}

theorem refl (search : Search σ) : Extends limits p search search where
  grows := .refl
  fresh_eq := by
    rw [Nat.sub_self, List.range'_zero, List.append_nil]
  mem_states := fun s hs => Or.inl hs

theorem mono (h : Extends limits p search search') (hpq : ∀ s, p s → q s) :
    Extends limits q search search' :=
  { h with mem_states := fun s hs => (h.mem_states s hs).imp_right (hpq s) }

theorem trans (h : Extends limits p search mid) (h' : Extends limits p mid search') :
    Extends limits p search search' where
  grows := h.grows.trans h'.grows
  fresh_eq := by
    have hle := h.grows.size_le
    have hle' := h'.grows.size_le
    rw [h'.fresh_eq, h.fresh_eq, List.append_assoc]
    -- The numbers of the second part go on where those of the first end.
    congr 1
    rw [show search'.system.states.size - search.system.states.size =
      (mid.system.states.size - search.system.states.size) +
        (search'.system.states.size - mid.system.states.size) by omega, ← List.range'_append_1]
    congr 2
    omega
  mem_states := by
    intro s hs
    rcases h'.mem_states s hs with hmid | hp
    · exact h.mem_states s hmid
    · exact Or.inr hp

end Extends

theorem record_extends {source : Nat} {action : String} {target : σ}
    (h : search.record limits source action target = .ok search') :
    search.Extends limits (· = target) search' := by
  have hrefl : search.Extends limits (· = target) search := .refl search
  rcases record_cases h with ⟨id, -, rfl⟩ | rfl | ⟨htarget, hlimit, rfl⟩
  · exact ⟨.withStep .refl _, hrefl.fresh_eq, hrefl.mem_states⟩
  · exact ⟨.refl, hrefl.fresh_eq, hrefl.mem_states⟩
  · have hsize := TransitionSystem.size_withState htarget
    refine ⟨.withStep (.withState .refl htarget hlimit) _, ?_, ?_⟩
    · have hone : (search.system.withState target).states.size - search.system.states.size = 1 := by
        omega
      simp only [TransitionSystem.states_withStep, hone, List.range'_one]
    · intro s hs
      exact (TransitionSystem.mem_states_withState.mp hs).symm

/-- Unless the search is full, where the step leads is known afterwards. -/
theorem states_eq_of_record {source : Nat} {action : String} {target : σ}
    (h : search.record limits source action target = .ok search') (hfull : search'.full = false) :
    search'.system.states = search.system.states.insert target := by
  rcases record_cases h with ⟨id, hid, rfl⟩ | rfl | ⟨-, -, rfl⟩
  · exact (OrderedSet.insert_of_mem (TransitionSystem.mem_states_of_state? hid)).symm
  · cases hfull
  · exact search.system.states_withState target

end Search

namespace Dynamics

section Follow

open MonadAttach (CanReturn)

variable {m : Type → Type} [Monad m] [LawfulMonad m] [MonadAttach m] [LawfulMonadAttach m]
  {d : Dynamics m σ ι} {limits : Limits}

/-- The states that come in with the inputs of a state are where these can lead. -/
theorem follow_extends {source : Nat} {s : σ} {inputs : List ι} {search search' : Search σ}
    (h : CanReturn (d.follow limits source s inputs search) search') :
    search.Extends limits (fun t => ∃ input ∈ inputs, CanReturn (d.next s input) t) search' := by
  induction inputs generalizing search with
  | nil =>
      cases canReturn_run_pure h
      exact .refl _
  | cons input rest ih =>
      rcases canReturn_run_bind h with ⟨e, herr, -⟩ | ⟨target, hask, h⟩
      · cases herr
      rcases canReturn_run_bind h with ⟨e, herr, -⟩ | ⟨mid, henter, h⟩
      · cases herr
      have hnext : CanReturn (d.next s input) target := Explore.canReturn_ask hask
      have hmid := (Search.record_extends (Explore.canReturn_run_enter henter)).mono fun t ht =>
        show ∃ input' ∈ input :: rest, CanReturn (d.next s input') t from
          ⟨input, List.mem_cons_self, ht ▸ hnext⟩
      by_cases hfull : mid.full = true
      · rw [if_pos hfull] at h
        cases canReturn_run_pure h
        exact hmid
      · rw [if_neg hfull] at h
        refine hmid.trans ((ih h).mono ?_)
        intro t ht
        rcases ht with ⟨input', hinput', ht⟩
        exact ⟨input', List.mem_cons_of_mem input hinput', ht⟩

end Follow

variable {d : Dynamics Id σ ι} {limits : Limits}

theorem expand_grows {frontier : List Nat} {search search' : Search σ}
    (h : (d.expand limits frontier search).run = .ok search') :
    search.system.Grows limits search'.system := by
  induction frontier generalizing search with
  | nil =>
      rw [expand, run_pure_eq_ok_iff] at h
      rw [← h]
      exact .refl
  | cons id rest ih =>
      rw [expand] at h
      rcases run_bind_eq_ok_iff.mp h with ⟨s, -, h⟩
      rcases run_bind_eq_ok_iff.mp h with ⟨inputs, -, h⟩
      rcases run_bind_eq_ok_iff.mp h with ⟨mid, hfollow, h⟩
      have hmid := (follow_extends (canReturn_iff_run_eq.mpr hfollow)).grows
      by_cases hfull : mid.full = true
      · rw [if_pos hfull, run_pure_eq_ok_iff] at h
        rw [← h]
        exact hmid
      · rw [if_neg hfull] at h
        exact hmid.trans (ih h)

theorem levels_grows {budget n : Nat} {frontier : List Nat}
    {system : TransitionSystem σ String String} {found : Exploration σ}
    (h : (d.levels limits budget n frontier system).run = .ok (some found)) :
    system.Grows limits found.system := by
  induction budget using Nat.strong_induction_on generalizing system n frontier with
  | _ budget ih =>
    rcases levels_cases h with ⟨-, rfl⟩ | ⟨-, -, rfl⟩ | ⟨-, -, less, search, hless, hexpand, hrest⟩
    · exact .refl
    · exact .refl
    · have hlevel := expand_grows hexpand
      by_cases hfull : search.full = true
      · rw [if_pos hfull, run_pure_eq_ok_iff, Option.some.injEq] at hrest
        rw [← hrest]
        exact hlevel
      · rw [if_neg hfull] at hrest
        exact hlevel.trans (ih less (by omega) hrest)

/-- Levels are only counted up. -/
theorem levels_depth_le {budget n : Nat} {frontier : List Nat}
    {system : TransitionSystem σ String String} {found : Exploration σ}
    (h : (d.levels limits budget n frontier system).run = .ok (some found)) : n ≤ found.depth := by
  induction budget using Nat.strong_induction_on generalizing system n frontier with
  | _ budget ih =>
    rcases levels_cases h with ⟨-, rfl⟩ | ⟨-, -, rfl⟩ | ⟨-, -, less, search, hless, -, hrest⟩
    · exact Nat.le_refl n
    · exact Nat.le_refl n
    · by_cases hfull : search.full = true
      · rw [if_pos hfull, run_pure_eq_ok_iff, Option.some.injEq] at hrest
        rw [← hrest]
      · rw [if_neg hfull] at hrest
        have := ih less (by omega) hrest
        omega

/-- An exploration is a search from the initial states, with labels at the end. The initial
    states do not depend on the limits. -/
theorem run_explore_eq_map {starts : List σ} (hstarts : d.initial.run = .ok starts) :
    ∃ system : TransitionSystem σ String String,
      enterInitial starts .empty = .ok (system, List.range' 0 system.states.size) ∧
      ∀ limits budget, (d.explore limits budget).run =
        Except.map (Option.map fun ended => { ended with system := d.labelled ended.system })
          (d.levels limits budget 0 (List.range' 0 system.states.size) system).run := by
  rcases Entered.empty.enterInitial starts with ⟨system, henter, hentered, -, -⟩
  refine ⟨system, henter, ?_⟩
  intro limits budget
  rw [explore, run_bind_of_ok (Explore.run_ask_eq_ok_iff.mpr hstarts),
    run_bind_of_ok (Explore.run_enter_eq_ok_iff.mpr henter)]
  show (d.levels limits budget 0 (List.range' 0 system.states.size) system >>= _).run = _
  cases hlevels : (d.levels limits budget 0 (List.range' 0 system.states.size) system).run with
  | error err => exact run_bind_of_error hlevels
  | ok ended? =>
      rw [run_bind_of_ok hlevels]
      cases ended? with
      | none => rfl
      | some ended =>
          -- The search has left the labels alone, so they are given to all states at once.
          have hgrows := levels_grows hlevels
          have hlabel := labelStates_eq_labelled d (hgrows.labels_eq hentered.labels_eq)
            (hgrows.propositions_eq.trans hentered.propositions_eq)
          exact run_bind_of_ok (Explore.run_enter_eq_ok_iff.mpr hlabel)

end Dynamics

/-- Each initial state is entered once. -/
theorem TransitionSystem.size_eq_dedup_length {S A P : Type} [DecidableEq S]
    {t : TransitionSystem S A P} {starts : List S} (h : ∀ s, s ∈ t.states ↔ s ∈ starts) :
    t.states.size = starts.dedup.length := by
  refine List.Perm.length_eq
    ((List.perm_ext_iff_of_nodup t.states.nodup (List.nodup_dedup _)).mpr ?_)
  intro s
  rw [List.mem_dedup]
  exact h s

end Interleaving
