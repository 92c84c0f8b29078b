import Interleaving.Proofs.Exploration.Failure
import Interleaving.Proofs.Exploration.Termination

/-!
# Numbers and Distances

A state gets its number when it is first met, and states are met level by level. So the
numbers do not decrease with the distance: what is met while the level at distance `n` is
expanded is either known or at distance `n + 1`, and nothing that is known by then is
farther away than that.

The numbers are those of `metFrom`, which lists the states in the order in which they are
met once some of them are expanded. A run may end with a failure and leave no system, or be
cut off by a limit in the middle of the inputs of a state. In all cases it has asked about
the states with the numbers `0`, `1`, `2` and so on, and if there is a system in the end,
then its states have these numbers as well.

## Main definitions

* `Dynamics.NoFarther`: The first of two states is at most as far away as the second.

## Theorems

* `Dynamics.pairwise_foldl_insert`: States that are one step further come last.
* `Dynamics.Passes.ordered`: At every position the numbers go by distance.
* `Dynamics.follow_begins`: A search that is cut off has met the first of the states.
* `Dynamics.Ends.numbered`: What is asked about and what is kept, by number.
* `TransitionSystem.map_idOf?_of_prefix`: The numbers of the first states.
-/

namespace Interleaving

open MonadAttach (CanReturn)

variable {σ ι : Type}

namespace OrderedSet

variable {α : Type} [DecidableEq α]

theorem prefix_insert (s : OrderedSet α) (a : α) : s.toList <+: (s.insert a).toList := by
  by_cases h : a ∈ s
  · rw [insert_of_mem h]
  · rw [toList_insert_of_not_mem h]
    exact List.prefix_append _ _

theorem prefix_foldl_insert (l : List α) (s : OrderedSet α) :
    s.toList <+: (l.foldl insert s).toList := by
  induction l generalizing s with
  | nil => exact List.prefix_refl _
  | cons a rest ih => exact (s.prefix_insert a).trans (ih (s.insert a))

end OrderedSet

/-- The first states of a system have the numbers from zero on. -/
theorem TransitionSystem.map_idOf?_of_prefix {S A P : Type} [DecidableEq S]
    {t : TransitionSystem S A P} {l : List S} (h : l <+: t.states.toList) :
    l.map t.idOf? = (List.range l.length).map some := by
  refine List.ext_getElem? ?_
  intro i
  by_cases hi : i < l.length
  · have hstate : t.state? i = some l[i] := by
      rcases h with ⟨more, hmore⟩
      rw [state?, OrderedSet.get?, ← hmore, List.getElem?_append_left hi,
        List.getElem?_eq_getElem hi]
    rw [List.getElem?_map, List.getElem?_map, List.getElem?_eq_getElem hi,
      List.getElem?_range hi, Option.map_some, Option.map_some, idOf?_eq_some_iff.mpr hstate]
  · rw [List.getElem?_eq_none (by simpa using hi), List.getElem?_eq_none (by simpa using hi)]

namespace Dynamics

/-- Both states can be reached, and the first is at most as far away as the second. -/
def NoFarther (d : Dynamics Id σ ι) (s t : σ) : Prop :=
  ∃ m n, d.IsDistance m s ∧ d.IsDistance n t ∧ m ≤ n

variable {d : Dynamics Id σ ι}

/-- A state that was not met within `n + 1` steps, but is met with one more, is no nearer than
    all that is. -/
theorem noFarther_of_before {n : Nat} {s t : σ} (hs : d.Before (n + 1) s)
    (ht : d.Before (n + 1) t) (hfar : ¬ d.Before n t) : d.NoFarther s t := by
  rcases (before_iff_exists_isDistance (n + 1) s).mp hs with ⟨m, hm, hdist⟩
  exact ⟨m, n, hdist, (isDistance_iff_before n t).mpr ⟨ht, hfar⟩, by omega⟩

theorem exists_leads_of_mem_successors {s t : σ} (h : t ∈ d.successors s) :
    ∃ action, d.Leads s action t := by
  unfold successors at h
  cases hinputs : (d.inputs s).run with
  | error e =>
      rw [hinputs] at h
      cases h
  | ok inputs =>
      rw [hinputs] at h
      rcases List.mem_filterMap.mp h with ⟨input, hinput, hnext⟩
      exact ⟨d.action input, inputs, hinputs, input, hinput, rfl, run_eq_ok_of_toOption hnext⟩

variable [DecidableEq σ] {limits : Limits}

/-- States that are one step further than what is all known come last. The induction is on
    those that are to come, and what is known by then may include some of them. -/
theorem pairwise_foldl_insert {n : Nat} {known : OrderedSet σ} {targets : List σ}
    (hordered : known.toList.Pairwise d.NoFarther) (hnear : ∀ s, d.Before n s → s ∈ known)
    (hmet : ∀ s ∈ known, d.Before (n + 1) s) (htargets : ∀ t ∈ targets, d.Before (n + 1) t) :
    (targets.foldl OrderedSet.insert known).toList.Pairwise d.NoFarther := by
  induction targets generalizing known with
  | nil => exact hordered
  | cons t rest ih =>
      have hrest : ∀ u ∈ rest, d.Before (n + 1) u :=
        fun u hu => htargets u (List.mem_cons_of_mem t hu)
      have ht : d.Before (n + 1) t := htargets t List.mem_cons_self
      rw [List.foldl_cons]
      by_cases hknown : t ∈ known
      · rw [OrderedSet.insert_of_mem hknown]
        exact ih hordered hnear hmet hrest
      · refine ih ?_ ?_ ?_ hrest
        · rw [OrderedSet.toList_insert_of_not_mem hknown, List.pairwise_append]
          refine ⟨hordered, List.pairwise_singleton _ _, ?_⟩
          intro s hs u hu
          rw [List.mem_singleton.mp hu]
          exact noFarther_of_before (hmet s hs) ht fun hbefore => hknown (hnear t hbefore)
        · intro s hs
          exact OrderedSet.mem_insert.mpr (Or.inr (hnear s hs))
        · intro s hs
          rcases OrderedSet.mem_insert.mp hs with rfl | hs
          · exact ht
          · exact hmet s hs

/-- The successors of a state of the level come after what is known. -/
theorem pairwise_successors {search : Search σ} {n bound k : Nat} {part : List ι} {s : σ}
    (h : Expanding d search n bound k part) (hk : k < bound)
    (hs : search.system.state? k = some s)
    (hordered : search.system.states.toList.Pairwise d.NoFarther) :
    ((d.successors s).foldl OrderedSet.insert search.system.states).toList.Pairwise
      d.NoFarther := by
  refine pairwise_foldl_insert hordered ?_ h.met ?_
  · intro u hu
    rcases (h.numbers u).mp hu with ⟨id, -, hid⟩
    exact TransitionSystem.mem_states_of_state? hid
  · intro t ht
    rcases exists_leads_of_mem_successors ht with ⟨action, hst⟩
    exact h.before_of_leads hk hs hst

namespace Passes

variable {asked : List σ} {depth : Nat} {rest : List Nat} {search : Search σ}

/-- At every position the numbers go by distance. -/
theorem ordered (h : Passes d limits asked depth rest search) :
    search.system.states.toList.Pairwise d.NoFarther := by
  induction h with
  | @start starts system frontier hstarts henter =>
      -- Nothing is known before the initial states, and nothing is nearer than they are.
      rw [(Entered.of_enterInitial henter).2.2]
      refine pairwise_foldl_insert (n := 0) List.Pairwise.nil ?_ ?_ ?_
      · intro s hs
        exact absurd hs (not_before_zero s)
      · intro s hs
        cases hs
      · intro s hs
        exact (before_one_iff s).mpr ((starts_iff_of_run hstarts s).mpr hs)
  | @state asked depth id rest search search' s inputs h _ hs hinputs hfollow hfull ih =>
      rcases h.expanding with ⟨bound, hcount, hexp⟩
      rcases hcount.next_eq with ⟨rfl, hlt, -⟩
      have hrun : (d.inputs s).run = .ok inputs := hinputs
      have hsuccessors := pairwise_successors hexp hlt hs ih
      rw [successors, hrun] at hsuccessors
      rw [(follow_complete (canReturn_iff_run_eq.mp hfollow) hfull).2]
      exact hsuccessors
  | level _ _ ih => exact ih

/-- So it is with the successors of the next state, whether or not all of them are kept. -/
theorem ordered_next {id : Nat} {s : σ} {starts : List σ}
    (h : Passes d limits asked depth (id :: rest) search)
    (hs : search.system.state? id = some s) (hstarts : d.initial.run = .ok starts) :
    (d.metFrom starts (asked ++ [s])).toList.Pairwise d.NoFarther := by
  rcases h.met with ⟨starts', hstarts', hstates, -⟩
  rw [hstarts] at hstarts'
  cases hstarts'
  rcases h.expanding with ⟨bound, hcount, hexp⟩
  rcases hcount.next_eq with ⟨rfl, hlt, -⟩
  rw [metFrom_append_singleton, ← hstates]
  exact pairwise_successors hexp hlt hs h.ordered

end Passes

/-- The inputs of a state bring in the first of their successors, and all of them unless the
    search is full. -/
theorem follow_begins {source : Nat} {s : σ} {inputs : List ι} {search search' : Search σ}
    (hrun : (d.follow limits source s inputs search).run = .ok search') :
    search'.system.states.toList <+:
      ((inputs.filterMap fun input => Except.toOption (d.next s input).run).foldl
        OrderedSet.insert search.system.states).toList := by
  induction inputs generalizing search with
  | nil =>
      rw [follow, run_pure_eq_ok_iff] at hrun
      rw [hrun]
      exact List.prefix_refl _
  | cons input rest ih =>
      rw [follow] at hrun
      rcases run_bind_eq_ok_iff.mp hrun with ⟨target, hask, hrun⟩
      rcases run_bind_eq_ok_iff.mp hrun with ⟨mid, henter, hrun⟩
      rw [Explore.run_ask_eq_ok_iff] at hask
      rw [Explore.run_enter_eq_ok_iff] at henter
      have htarget : Except.toOption (d.next s input).run = some target := by
        rw [hask]
        rfl
      simp only [List.filterMap_cons, htarget, List.foldl_cons]
      by_cases hmid : mid.full = true
      · -- The search has stopped here, with the step recorded or not.
        rw [if_pos hmid, run_pure_eq_ok_iff] at hrun
        rw [← hrun]
        refine List.IsPrefix.trans ?_ (OrderedSet.prefix_foldl_insert _ _)
        rcases Search.record_cases henter with ⟨id, -, rfl⟩ | rfl | ⟨-, -, rfl⟩
        · exact search.system.states.prefix_insert target
        · exact search.system.states.prefix_insert target
        · rw [TransitionSystem.states_withStep, TransitionSystem.states_withState]
      · rw [if_neg hmid] at hrun
        rw [← Search.states_eq_of_record henter (Bool.eq_false_iff.mpr hmid)]
        exact ih hrun

/-- However a run ends, it has asked about the first of the states that are met, these go by
    distance, and what is kept are the first of them as well. -/
theorem Ends.numbered {budget : Nat} {asked starts : List σ}
    {r : Except (ExplorationError σ String String) (Option (Exploration σ))}
    (h : Ends d limits budget r asked) (hstarts : d.initial.run = .ok starts) :
    asked <+: (d.metFrom starts asked).toList ∧
      (d.metFrom starts asked).toList.Pairwise d.NoFarther ∧
      ∀ found, r = .ok (some found) →
        found.system.states.toList <+: (d.metFrom starts asked).toList := by
  have hmet : ∀ {asked depth rest search}, Passes d limits asked depth rest search →
      search.system.states = d.metFrom starts asked := by
    intro asked depth rest search hpass
    rcases hpass.met with ⟨starts', hstarts', hstates, -⟩
    rw [hstarts] at hstarts'
    cases hstarts'
    exact hstates
  have hbetween : ∀ {asked depth rest search}, Passes d limits asked depth rest search →
      asked <+: (d.metFrom starts asked).toList ∧
        (d.metFrom starts asked).toList.Pairwise d.NoFarther := by
    intro asked depth rest search hpass
    rcases hpass.counted with ⟨bound, hcount⟩
    rw [← hmet hpass]
    exact ⟨hcount.begins, hpass.ordered⟩
  have hnext : ∀ {asked depth id rest search s}, Passes d limits asked depth (id :: rest) search →
      search.system.state? id = some s →
      asked ++ [s] <+: (d.metFrom starts (asked ++ [s])).toList := by
    intro asked depth id rest search s hpass hs
    rcases hpass.counted with ⟨bound, hcount⟩
    rw [metFrom_append_singleton, ← hmet hpass]
    exact (hcount.begins_append hs).trans (OrderedSet.prefix_foldl_insert _ _)
  cases h with
  | unstarted hfails =>
      have herror : d.initial.run = .error _ := hfails
      rw [hstarts] at herror
      cases herror
  | failed hpass _ hs _ =>
      refine ⟨hnext hpass hs, hpass.ordered_next hs hstarts, ?_⟩
      intro found hfound
      cases hfound
  | spent hpass _ _ =>
      refine ⟨(hbetween hpass).1, (hbetween hpass).2, ?_⟩
      intro found hfound
      cases hfound
  | settled hpass hstates =>
      refine ⟨(hbetween hpass).1, (hbetween hpass).2, ?_⟩
      intro found hfound
      cases hfound
      rw [hstates, hmet hpass]
  | @filled asked depth id rest search search' s inputs found hpass hs hinputs hfollow hstates =>
      refine ⟨hnext hpass hs, hpass.ordered_next hs hstarts, ?_⟩
      intro found' hfound
      cases hfound
      have hrun : (d.inputs s).run = .ok inputs := hinputs
      rw [hstates, metFrom_append_singleton, ← hmet hpass, successors, hrun]
      exact follow_begins (canReturn_iff_run_eq.mp hfollow)

end Dynamics

end Interleaving
