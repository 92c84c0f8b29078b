import Interleaving.Proofs.Exploration.Failure

/-!
# One State Space Inside Another

Two state spaces may do the same without having the same states. If the states of one are
sent to states of the other, no two of them to the same one, and if both answer every
question in the same way, then explorations of the two go side by side: every number, every
mark, transition and label is the same, and the states at each number belong together.

`Embeds` asks for answers that agree in order and in their errors. This is more than to have
the same runs, and so is what follows: limits cut both explorations off at the same place,
and if one fails, the other one does with the same error.

The comparison is a run of both searches at once. What is kept is that the second system is
the first with its states renamed, `Images`, and each loop of the search keeps it.

## Main definitions

* `TransitionSystem.Images`: A system with its states renamed.
* `Dynamics.Embeds`: Both state spaces answer in the same way.

## Theorems

* `TransitionSystem.Images.withState`, `TransitionSystem.Images.enterInitial`,
  `Search.Images.record`: What a search does to a system is done to both.
* `Dynamics.Embeds.follow`, `Dynamics.Embeds.expand`, `Dynamics.Embeds.levels`: The loops of a
  search, from the inside out.
* `Dynamics.Embeds.explore`: The explorations have the same result.
-/

namespace Interleaving

variable {σ τ ι κ : Type} {f : σ → τ}

/-- The second system is the first one with its states renamed. -/
structure TransitionSystem.Images {S T A P : Type} (f : S → T) (t : TransitionSystem S A P)
    (u : TransitionSystem T A P) : Prop where
  states_eq : u.states.toList = t.states.toList.map f
  initial_eq : u.initial = t.initial
  actions_eq : u.actions = t.actions
  transitions_eq : u.transitions = t.transitions
  propositions_eq : u.propositions = t.propositions
  labels_eq : u.labels = t.labels

/-- The same search, with the states renamed. -/
structure Search.Images (f : σ → τ) (search : Search σ) (search' : Search τ) : Prop where
  system : search.system.Images f search'.system
  fresh_eq : search'.fresh = search.fresh
  full_eq : search'.full = search.full

/-- The same findings, with the states renamed. -/
structure Exploration.Images (f : σ → τ) (found : Exploration σ) (found' : Exploration τ) :
    Prop where
  system : found.system.Images f found'.system
  outcome_eq : found'.outcome = found.outcome
  depth_eq : found'.depth = found.depth

/-- The same reason to fail. A search refers to states by number only. -/
inductive ExplorationError.Same :
    ExplorationError σ String String → ExplorationError τ String String → Prop where
  | eval (e : EvalError) : Same (.eval e) (.eval e)
  | unknownId (id : Nat) : Same (.system (.unknownId id)) (.system (.unknownId id))

/-- The states of `d` are sent to states of `d'`, and both answer in the same way: their errors
    are the same, and their results belong together, in order. -/
structure Dynamics.Embeds (d : Dynamics Id σ ι) (d' : Dynamics Id τ κ) (f : σ → τ) : Prop where
  injective : Function.Injective f
  initial : Tracks Eq (fun starts starts' => starts' = starts.map f) d.initial d'.initial
  inputs : ∀ s, Tracks Eq (List.Forall₂ fun input input' => d'.action input' = d.action input ∧
    Tracks Eq (fun t t' => t' = f t) (d.next s input) (d'.next (f s) input'))
      (d.inputs s) (d'.inputs (f s))
  labels_eq : ∀ s, d'.labels (f s) = d.labels s

namespace TransitionSystem.Images

variable {t : TransitionSystem σ String String} {u : TransitionSystem τ String String}

theorem empty : Images f (.empty : TransitionSystem σ String String) .empty :=
  ⟨rfl, rfl, rfl, rfl, rfl, rfl⟩

theorem size_eq (h : t.Images f u) : u.states.size = t.states.size := by
  rw [OrderedSet.size, h.states_eq, List.length_map, OrderedSet.size]

theorem state?_eq (h : t.Images f u) (id : Nat) : u.state? id = (t.state? id).map f := by
  unfold state? OrderedSet.get?
  rw [h.states_eq, List.getElem?_map]

theorem state?_eq_some (h : t.Images f u) {id : Nat} {s : σ} (hs : t.state? id = some s) :
    u.state? id = some (f s) := by
  rw [h.state?_eq, hs]
  rfl

theorem mem_states_iff (h : t.Images f u) (hf : Function.Injective f) {s : σ} :
    f s ∈ u.states ↔ s ∈ t.states := by
  rw [← OrderedSet.mem_toList, h.states_eq, List.mem_map_of_injective hf, OrderedSet.mem_toList]

theorem withStep (h : t.Images f u) (step : Transition Nat String) :
    (t.withStep step).Images f (u.withStep step) :=
  { h with
    actions_eq := by simp only [TransitionSystem.withStep, h.actions_eq]
    transitions_eq := by simp only [TransitionSystem.withStep, h.transitions_eq] }

theorem mark (h : t.Images f u) (id : Nat) :
    Images f { t with initial := t.initial.insert id }
      { u with initial := u.initial.insert id } :=
  { h with initial_eq := by simp only [h.initial_eq] }

theorem labelled {d : Dynamics Id σ ι} {d' : Dynamics Id τ κ} (h : t.Images f u)
    (hlabels : ∀ s, d'.labels (f s) = d.labels s) :
    (d.labelled t).Images f (d'.labelled u) :=
  { h with
    propositions_eq := by
      simp only [Dynamics.labelled, h.states_eq, List.flatMap_map, hlabels]
    labels_eq := by
      simp only [Dynamics.labelled, h.states_eq, List.map_map, Function.comp_def, hlabels] }

variable [DecidableEq σ] [DecidableEq τ]

theorem withState (h : t.Images f u) (hf : Function.Injective f) {s : σ} (hs : s ∉ t.states) :
    (t.withState s).Images f (u.withState (f s)) :=
  { h with
    states_eq := by
      have hs' : f s ∉ u.states := mt (h.mem_states_iff hf).mp hs
      rw [states_withState, states_withState, OrderedSet.toList_insert_of_not_mem hs',
        OrderedSet.toList_insert_of_not_mem hs, h.states_eq, List.map_append, List.map_singleton]
    labels_eq := by simp only [TransitionSystem.withState, h.labels_eq] }

/-- The initial states are entered side by side, by induction on those that are left. -/
theorem enterInitial (h : t.Images f u) (hf : Function.Injective f) (starts : List σ) :
    ∃ t' u' frontier, Dynamics.enterInitial starts t = .ok (t', frontier) ∧
      Dynamics.enterInitial (starts.map f) u = .ok (u', frontier) ∧ t'.Images f u' := by
  induction starts generalizing t u with
  | nil => exact ⟨t, u, [], rfl, rfl, h⟩
  | cons s rest ih =>
      by_cases hs : s ∈ t.states
      · rcases TransitionSystem.mem_states_iff.mp hs with ⟨id, hid⟩
        have hid' := h.state?_eq_some hid
        rcases ih (h.mark id) with ⟨t', u', frontier, ht, hu, himage⟩
        refine ⟨t', u', frontier, ?_, ?_, himage⟩
        · rw [Dynamics.enterInitial, insertState_of_mem hid]
          simp only [after_markInitial hid, ht, bind, Except.bind]
          rfl
        · rw [List.map_cons, Dynamics.enterInitial, insertState_of_mem hid']
          simp only [after_markInitial hid', hu, bind, Except.bind]
          rfl
      · have hs' : f s ∉ u.states := mt (h.mem_states_iff hf).mp hs
        have hid := state?_withState_size hs
        have hid' := state?_withState_size hs'
        rw [h.size_eq] at hid'
        rcases ih ((h.withState hf hs).mark t.states.size) with
          ⟨t', u', frontier, ht, hu, himage⟩
        refine ⟨t', u', t.states.size :: frontier, ?_, ?_, himage⟩
        · rw [Dynamics.enterInitial, insertState_of_not_mem hs]
          simp only [after_markInitial hid, ht, bind, Except.bind]
          rfl
        · rw [List.map_cons, Dynamics.enterInitial, insertState_of_not_mem hs', h.size_eq]
          simp only [after_markInitial hid', hu, bind, Except.bind]
          rfl

end TransitionSystem.Images

/-- Questions that are answered in the same way. -/
theorem Explore.ask_tracks {α β : Type} {R : α → β → Prop} {x : Eval Id α} {y : Eval Id β}
    (h : Tracks Eq R x y) :
    Tracks ExplorationError.Same R (Explore.ask x : Explore Id σ α)
      (Explore.ask y : Explore Id τ β) := by
  cases h with
  | @error e e' hx hy he =>
      cases he
      exact .error (Explore.run_ask_eq_error_iff.mpr ⟨e, rfl, hx⟩)
        (Explore.run_ask_eq_error_iff.mpr ⟨e, rfl, hy⟩) (.eval e)
  | ok hx hy h =>
      exact .ok (Explore.run_ask_eq_ok_iff.mpr hx) (Explore.run_ask_eq_ok_iff.mpr hy) h

/-- A state is looked up in both systems, or in neither. -/
theorem TransitionSystem.Images.stateAt_tracks {t : TransitionSystem σ String String}
    {u : TransitionSystem τ String String} (h : t.Images f u) (id : Nat) :
    Tracks ExplorationError.Same (fun s s' => s' = f s ∧ t.state? id = some s)
      (Explore.enter (t.stateAt id) : Explore Id σ σ)
      (Explore.enter (u.stateAt id) : Explore Id τ τ) := by
  have hu := h.state?_eq id
  cases ht : t.state? id with
  | none =>
      rw [ht] at hu
      rw [stateAt, stateAt, ht, hu]
      exact .error rfl rfl (.unknownId id)
  | some s =>
      rw [ht] at hu
      rw [stateAt, stateAt, ht, hu]
      exact .ok rfl rfl ⟨rfl, rfl⟩

variable [DecidableEq σ] [DecidableEq τ]

/-- A step is recorded in both systems. -/
theorem Search.Images.record {search : Search σ} {search' : Search τ} {source : Nat} {s : σ}
    (h : search.Images f search') (hf : Function.Injective f)
    (hs : search.system.state? source = some s) (limits : Limits) (action : String) (target : σ) :
    Tracks ExplorationError.Same (Search.Images f)
      (Explore.enter (search.record limits source action target) : Explore Id σ _)
      (Explore.enter (search'.record limits source action (f target)) : Explore Id τ _) := by
  have hs' := h.system.state?_eq_some hs
  have hsize := h.system.size_eq
  by_cases htarget : target ∈ search.system.states
  · rcases TransitionSystem.mem_states_iff.mp htarget with ⟨id, hid⟩
    rw [record_of_known hs hid, record_of_known hs' (h.system.state?_eq_some hid)]
    exact .ok rfl rfl ⟨h.system.withStep _, h.fresh_eq, h.full_eq⟩
  · have htarget' : f target ∉ search'.system.states :=
      mt (h.system.mem_states_iff hf).mp htarget
    cases hlimit : limits.statesReached search.system.states.size with
    | true =>
        rw [record_of_full htarget hlimit, record_of_full htarget' (hsize ▸ hlimit)]
        exact .ok rfl rfl ⟨h.system, h.fresh_eq, rfl⟩
    | false =>
        rw [record_of_new hs htarget hlimit, record_of_new hs' htarget' (hsize ▸ hlimit), hsize]
        exact .ok rfl rfl ⟨(h.system.withState hf htarget).withStep _, by rw [h.fresh_eq],
          h.full_eq⟩

namespace Dynamics.Embeds

variable {d : Dynamics Id σ ι} {d' : Dynamics Id τ κ}

/-- The inputs of a state, by induction on those that are left. -/
theorem follow (h : d.Embeds d' f) (limits : Limits) {source : Nat} {s : σ} {inputs : List ι}
    {inputs' : List κ}
    (hinputs : List.Forall₂ (fun input input' => d'.action input' = d.action input ∧
      Tracks Eq (fun t t' => t' = f t) (d.next s input) (d'.next (f s) input')) inputs inputs')
    {search : Search σ} {search' : Search τ} (himage : search.Images f search')
    (hs : search.system.state? source = some s) :
    Tracks ExplorationError.Same (Search.Images f) (d.follow limits source s inputs search)
      (d'.follow limits source (f s) inputs' search') := by
  induction hinputs generalizing search search' with
  | nil => exact .pure himage
  | cons hfirst _ ih =>
      rcases hfirst with ⟨haction, hnext⟩
      rw [Dynamics.follow, Dynamics.follow, haction]
      refine (Explore.ask_tracks hnext).bind ?_
      intro target target' _ htarget
      rw [htarget]
      refine (himage.record h.injective hs limits _ target).bind ?_
      intro mid mid' hrec hmid
      rw [hmid.full_eq]
      by_cases hfull : mid.full = true
      · rw [if_pos hfull, if_pos hfull]
        exact .pure hmid
      · rw [if_neg hfull, if_neg hfull]
        have hgrows := (Search.record_extends (Explore.run_enter_eq_ok_iff.mp hrec)).grows
        exact ih hmid (hgrows.state?_eq_some hs)

/-- The states of a level, by induction on those that are left. -/
theorem expand (h : d.Embeds d' f) (limits : Limits) (frontier : List Nat) {search : Search σ}
    {search' : Search τ} (himage : search.Images f search') :
    Tracks ExplorationError.Same (Search.Images f) (d.expand limits frontier search)
      (d'.expand limits frontier search') := by
  induction frontier generalizing search search' with
  | nil => exact .pure himage
  | cons id rest ih =>
      rw [Dynamics.expand, Dynamics.expand]
      refine (himage.system.stateAt_tracks id).bind ?_
      intro s s' _ hstate
      rcases hstate with ⟨rfl, hs⟩
      refine (Explore.ask_tracks (h.inputs s)).bind ?_
      intro inputs inputs' _ hinputs
      refine (h.follow limits hinputs himage hs).bind ?_
      intro mid mid' _ hmid
      rw [hmid.full_eq]
      by_cases hfull : mid.full = true
      · rw [if_pos hfull, if_pos hfull]
        exact .pure hmid
      · rw [if_neg hfull, if_neg hfull]
        exact ih hmid

/-- Level after level. -/
theorem levels (h : d.Embeds d' f) (limits : Limits) (budget depth : Nat) (frontier : List Nat)
    {system : TransitionSystem σ String String} {system' : TransitionSystem τ String String}
    (himage : system.Images f system') :
    Tracks ExplorationError.Same (Option.Rel (Exploration.Images f))
      (d.levels limits budget depth frontier system)
      (d'.levels limits budget depth frontier system') := by
  fun_induction d.levels limits budget depth frontier system generalizing system' with
  | case1 budget depth system =>
      rw [levels_nil]
      exact .pure (.some ⟨himage, rfl, rfl⟩)
  | case2 budget depth frontier system hne hdepth =>
      rw [levels_of_depthReached d' hne hdepth]
      exact .pure (.some ⟨himage, rfl, rfl⟩)
  | case3 depth frontier system hne hdepth =>
      rw [levels_zero d' hne (Bool.eq_false_iff.mpr hdepth)]
      exact .pure .none
  | case4 depth frontier system hne hdepth budget ih =>
      rw [levels_succ d' hne (Bool.eq_false_iff.mpr hdepth)]
      refine (h.expand limits frontier ⟨himage, rfl, rfl⟩).bind ?_
      intro search search' _ hsearch
      rw [hsearch.full_eq, hsearch.fresh_eq]
      by_cases hfull : search.full = true
      · rw [if_pos hfull, if_pos hfull]
        exact .pure (.some ⟨hsearch.system, rfl, rfl⟩)
      · rw [if_neg hfull, if_neg hfull]
        exact ih search hsearch.system

omit [DecidableEq τ] in
/-- A search only fails for reasons of the state space. -/
theorem eval_of_same {limits : Limits} {budget : Nat} {err : ExplorationError σ String String}
    {err' : ExplorationError τ String String} (hrun : (d.explore limits budget).run = .error err)
    (hsame : ExplorationError.Same err err') : ∃ e, err = .eval e ∧ err' = .eval e := by
  rcases explore_error_cases hrun with ⟨e, rfl, -⟩
  cases hsame
  exact ⟨e, rfl, rfl⟩

/-- The explorations fail with the same error, or they find the same. -/
theorem explore (h : d.Embeds d' f) (limits : Limits) (budget : Nat) :
    Tracks (fun err err' => ∃ e, err = .eval e ∧ err' = .eval e)
      (Option.Rel (Exploration.Images f)) (d.explore limits budget)
      (d'.explore limits budget) := by
  cases h.initial with
  | @error e e' hx hy he =>
      cases he
      have hask : (Explore.ask d.initial : Explore Id σ (List σ)).run = .error (.eval e) :=
        Explore.run_ask_eq_error_iff.mpr ⟨e, rfl, hx⟩
      have hask' : (Explore.ask d'.initial : Explore Id τ (List τ)).run = .error (.eval e) :=
        Explore.run_ask_eq_error_iff.mpr ⟨e, rfl, hy⟩
      exact .error (run_bind_of_error hask) (run_bind_of_error hask') ⟨e, rfl, rfl⟩
  | @ok starts starts' hx hy hstarts =>
      rcases run_explore_eq_map hx with ⟨system, henter, hrun⟩
      rcases run_explore_eq_map hy with ⟨system', henter', hrun'⟩
      have himage : system.Images f system' := by
        rcases TransitionSystem.Images.empty.enterInitial h.injective starts with
          ⟨t, u, frontier, ht, hu, himage⟩
        rw [henter, Except.ok.injEq, Prod.mk.injEq] at ht
        rw [← hstarts, henter', Except.ok.injEq, Prod.mk.injEq] at hu
        rw [ht.1, hu.1]
        exact himage
      have hlevels := h.levels limits budget 0 (List.range' 0 system.states.size) himage
      have hfrontier : List.range' 0 system'.states.size = List.range' 0 system.states.size := by
        rw [himage.size_eq]
      have hfound := hrun limits budget
      have hfound' := hrun' limits budget
      rw [hfrontier] at hfound'
      cases hlevels with
      | error hlevel hlevel' hsame =>
          rw [hlevel] at hfound
          rw [hlevel'] at hfound'
          exact .error hfound hfound' (eval_of_same hfound hsame)
      | @ok ended? ended?' hlevel hlevel' hends =>
          rw [hlevel] at hfound
          rw [hlevel'] at hfound'
          refine .ok hfound hfound' ?_
          cases hends with
          | none => exact .none
          | some hend =>
              exact .some ⟨hend.system.labelled h.labels_eq, hend.outcome_eq, hend.depth_eq⟩

end Dynamics.Embeds

end Interleaving
