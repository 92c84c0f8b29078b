import Interleaving.Proofs.Exploration.Growth
import Interleaving.Proofs.Exploration.Portrait

/-!
# Tighter Limits

Two searches in the same state space, one with tighter limits than the other, do the same
as long as the tighter one goes on. It looks at its limits in two places: before a level is
expanded, and when a state turns up that is new. As long as neither holds it back, the
looser limits do not hold the other one back either, and the two are in the same position.
So a failure of the first is a failure of the second, and when the first one ends, the
second has only added to what was there.

The comparison is made for each loop, from the inside out. For the inputs of a state and for
the states of a level it is `Outdoes`: the same failure, the same result if the search is
not full, and otherwise a system that grows into any the looser search ends with. For levels
it is `Surpasses`, which takes the two budgets into account; these have nothing to do with
the limits.

## Main definitions

* `Limits.Tighter`: Every limit that is set for one is set for the other, and no higher.
* `Explore.Outdoes`, `Explore.Surpasses`: A search with looser limits goes at least as far.
* `TransitionSystem.Begins`: A system is the beginning of another.

## Theorems

* `Search.record_outdoes`, `Dynamics.follow_outdoes`, `Dynamics.expand_outdoes`,
  `Dynamics.levels_surpasses`: The loops of a search, from the inside out.
* `explore_tighter_begins_looser`: What an exploration under tighter limits finds is the
  beginning of what it finds otherwise.
-/

namespace Interleaving

variable {σ ι : Type}

/-- Each limit that `looser` sets is set by `limits` too, and is no higher there. -/
structure Limits.Tighter (limits looser : Limits) : Prop where
  maxDepth_le : ∀ bound, looser.maxDepth = some bound → ∃ b ≤ bound, limits.maxDepth = some b
  maxStates_le : ∀ bound, looser.maxStates = some bound → ∃ b ≤ bound, limits.maxStates = some b

namespace Limits

/-- A limit holds back earlier if it is lower. -/
theorem reached_of_le {limit looser : Option Nat}
    (h : ∀ bound, looser = some bound → ∃ b ≤ bound, limit = some b) {n : Nat}
    (hreached : reached limit n = false) : reached looser n = false := by
  cases looser with
  | none => rfl
  | some bound =>
      rcases h bound rfl with ⟨b, hb, rfl⟩
      rw [reached, decide_eq_false_iff_not] at hreached ⊢
      omega

variable {limits looser : Limits}

theorem Tighter.depthReached (h : limits.Tighter looser) {n : Nat}
    (hn : limits.depthReached n = false) : looser.depthReached n = false :=
  reached_of_le h.maxDepth_le hn

theorem Tighter.statesReached (h : limits.Tighter looser) {n : Nat}
    (hn : limits.statesReached n = false) : looser.statesReached n = false :=
  reached_of_le h.maxStates_le hn

end Limits

variable [DecidableEq σ] {limits looser : Limits}

/-- A search with looser limits goes at least as far: it fails in the same way, it has the
    same result unless the first search is full, and in that case it adds to it. -/
inductive Explore.Outdoes (looser : Limits) (y x : Explore Id σ (Search σ)) : Prop where
  | error {err : ExplorationError σ String String} (hx : x.run = .error err)
      (hy : y.run = .error err) : Outdoes looser y x
  | same {search : Search σ} (hx : x.run = .ok search) (hfull : search.full = false)
      (hy : y.run = .ok search) : Outdoes looser y x
  | full {search : Search σ} (hx : x.run = .ok search) (hfull : search.full = true)
      (hy : ∀ search', y.run = .ok search' → search.system.Grows looser search'.system) :
      Outdoes looser y x

namespace Explore.Outdoes

variable {α : Type}

/-- What comes before, and has nothing to do with limits, is the same for both. -/
theorem bind_left {z : Explore Id σ α} {g f : α → Explore Id σ (Search σ)}
    (h : ∀ a, z.run = .ok a → Outdoes looser (g a) (f a)) :
    Outdoes looser (z >>= g) (z >>= f) := by
  cases hz : z.run with
  | error err => exact .error (run_bind_of_error hz) (run_bind_of_error hz)
  | ok a =>
      have hg : z >>= g = g a := ExceptT.ext (run_bind_of_ok hz)
      have hf : z >>= f = f a := ExceptT.ext (run_bind_of_ok hz)
      rw [hg, hf]
      exact h a hz

/-- Both go on in a way that is compared again, unless the tighter search is full. Then it is
    enough that the other one only adds to what it has. -/
theorem andThen {y x : Explore Id σ (Search σ)} {g f : Search σ → Explore Id σ (Search σ)}
    (h : Outdoes looser y x)
    (hsame : ∀ search, x.run = .ok search → search.full = false →
      Outdoes looser (g search) (f search))
    (hgrows : ∀ search search', (g search).run = .ok search' →
      search.system.Grows looser search'.system) :
    Outdoes looser (y >>= fun search => if search.full then pure search else g search)
      (x >>= fun search => if search.full then pure search else f search) := by
  cases h with
  | error hx hy => exact .error (run_bind_of_error hx) (run_bind_of_error hy)
  | @same search hx hfull hy =>
      have hne : ¬ search.full = true := by
        rw [hfull]
        exact Bool.false_ne_true
      rw [ExceptT.ext (run_bind_of_ok hx), ExceptT.ext (run_bind_of_ok hy), if_neg hne,
        if_neg hne]
      exact hsame search hx hfull
  | @full search hx hfull hy =>
      have hstop : (x >>= fun search => if search.full then pure search else f search).run =
          .ok search := by
        rw [run_bind_of_ok hx, if_pos hfull]
        rfl
      refine .full hstop hfull ?_
      intro search' hrun
      rcases run_bind_eq_ok_iff.mp hrun with ⟨mid, hmid, hrest⟩
      refine (hy mid hmid).trans ?_
      by_cases hfull' : mid.full = true
      · rw [if_pos hfull', run_pure_eq_ok_iff] at hrest
        rw [hrest]
        exact .refl
      · rw [if_neg hfull'] at hrest
        exact hgrows mid search' hrest

end Explore.Outdoes

/-- The same between levels, where the search with looser limits may run out of its
    budget. -/
inductive Explore.Surpasses (looser : Limits) (y x : Explore Id σ (Option (Exploration σ))) :
    Prop where
  | error {err : ExplorationError σ String String} (hx : x.run = .error err)
      (hy : y.run = .error err ∨ y.run = .ok none) : Surpasses looser y x
  | spent (hx : x.run = .ok none) : Surpasses looser y x
  | found {found : Exploration σ} (hx : x.run = .ok (some found))
      (hy : ∀ found', y.run = .ok (some found') → found.depth ≤ found'.depth ∧
        found.system.Grows looser found'.system ∧
        (found.outcome = .complete → found' = found)) : Surpasses looser y x

/-- With a search that was not finished there is nothing to compare. -/
theorem Explore.Surpasses.of_spent {y x : Explore Id σ (Option (Exploration σ))}
    (hy : y.run = .ok none) : Surpasses looser y x := by
  cases hx : x.run with
  | error err => exact .error hx (Or.inr hy)
  | ok found? =>
      cases found? with
      | none => exact .spent hx
      | some found =>
          refine .found hx ?_
          intro found' hfound'
          rw [hy] at hfound'
          cases hfound'

/-- A step that is recorded under tighter limits is recorded under looser ones. -/
theorem Search.record_outdoes (h : limits.Tighter looser) {search : Search σ} {source : Nat}
    {s : σ} (hs : search.system.state? source = some s) (hfull : search.full = false)
    (action : String) (target : σ) :
    Explore.Outdoes looser (Explore.enter (search.record looser source action target))
      (Explore.enter (search.record limits source action target)) := by
  by_cases htarget : target ∈ search.system.states
  · rcases TransitionSystem.mem_states_iff.mp htarget with ⟨id, hid⟩
    rw [record_of_known hs hid, record_of_known hs hid]
    exact .same rfl hfull rfl
  · cases hlimit : limits.statesReached search.system.states.size with
    | true =>
        rw [record_of_full htarget hlimit]
        refine .full rfl rfl ?_
        intro search' hrec
        exact (record_extends (Explore.run_enter_eq_ok_iff.mp hrec)).grows
    | false =>
        rw [record_of_new hs htarget hlimit, record_of_new hs htarget (h.statesReached hlimit)]
        exact .same rfl hfull rfl

namespace Dynamics

variable {d : Dynamics Id σ ι}

/-- The inputs of a state, by induction on those that are left. -/
theorem follow_outdoes (h : limits.Tighter looser) {source : Nat} {s : σ} (inputs : List ι)
    {search : Search σ} (hs : search.system.state? source = some s)
    (hfull : search.full = false) :
    Explore.Outdoes looser (d.follow looser source s inputs search)
      (d.follow limits source s inputs search) := by
  induction inputs generalizing search with
  | nil => exact .same rfl hfull rfl
  | cons input rest ih =>
      rw [follow, follow]
      refine .bind_left fun target _ => (Search.record_outdoes h hs hfull _ target).andThen ?_ ?_
      · intro mid hrec hmid
        have hgrows := (Search.record_extends (Explore.run_enter_eq_ok_iff.mp hrec)).grows
        exact ih (hgrows.state?_eq_some hs) hmid
      · intro mid search' hrun
        exact (follow_extends (canReturn_iff_run_eq.mpr hrun)).grows

/-- The states of a level, by induction on those that are left. -/
theorem expand_outdoes (h : limits.Tighter looser) (frontier : List Nat) {search : Search σ}
    (hfull : search.full = false) :
    Explore.Outdoes looser (d.expand looser frontier search)
      (d.expand limits frontier search) := by
  induction frontier generalizing search with
  | nil => exact .same rfl hfull rfl
  | cons id rest ih =>
      rw [expand, expand]
      refine .bind_left fun s hs => .bind_left fun inputs _ => ?_
      have hstate : search.system.state? id = some s := by
        exact TransitionSystem.state?_of_stateAt (Explore.run_enter_eq_ok_iff.mp hs)
      refine (follow_outdoes h inputs hstate hfull).andThen ?_ ?_
      · intro mid _ hmid
        exact ih hmid
      · intro mid search' hrun
        exact expand_grows hrun

/-- Level after level. The budgets have nothing to do with each other, so the induction is on
    that of the tighter search. -/
theorem levels_surpasses (h : limits.Tighter looser) (budget budget' depth : Nat)
    (frontier : List Nat) (system : TransitionSystem σ String String) :
    Explore.Surpasses looser (d.levels looser budget' depth frontier system)
      (d.levels limits budget depth frontier system) := by
  fun_induction d.levels limits budget depth frontier system generalizing budget' with
  | case1 budget depth system =>
      refine .found rfl ?_
      intro found' hfound'
      rw [levels_nil, run_pure_eq_ok_iff, Option.some.injEq] at hfound'
      rw [← hfound']
      exact ⟨Nat.le_refl _, .refl, fun _ => rfl⟩
  | case2 budget depth frontier system hne hdepth =>
      refine .found rfl ?_
      intro found' hfound'
      refine ⟨levels_depth_le hfound', levels_grows hfound', ?_⟩
      intro hcomplete
      cases hcomplete
  | case3 depth frontier system hne hdepth => exact .spent rfl
  | case4 depth frontier system hne hdepth budget ih =>
      have hlimit := h.depthReached (Bool.eq_false_iff.mpr hdepth)
      cases budget' with
      | zero =>
          rw [levels_zero d hne hlimit]
          exact .of_spent rfl
      | succ budget' =>
          rw [levels_succ d hne hlimit]
          have hlevel : Explore.Outdoes looser (d.expand looser frontier ⟨system, [], false⟩)
              (d.expand limits frontier ⟨system, [], false⟩) := expand_outdoes h frontier rfl
          cases hlevel with
          | error hx hy => exact .error (run_bind_of_error hx) (Or.inl (run_bind_of_error hy))
          | @same search hx hfull hy =>
              have hcont : ¬ search.full = true := by
                rw [hfull]
                exact Bool.false_ne_true
              rw [ExceptT.ext (run_bind_of_ok hx), ExceptT.ext (run_bind_of_ok hy), if_neg hcont,
                if_neg hcont]
              exact ih search budget'
          | @full search hx hfull hy =>
              rw [ExceptT.ext (run_bind_of_ok hx), if_pos hfull]
              refine .found rfl ?_
              intro found' hfound'
              rcases run_bind_eq_ok_iff.mp hfound' with ⟨mid, hmid, hrest⟩
              by_cases hfull' : mid.full = true
              · rw [if_pos hfull', run_pure_eq_ok_iff, Option.some.injEq] at hrest
                rw [← hrest]
                refine ⟨Nat.le_refl _, hy mid hmid, ?_⟩
                intro hcomplete
                cases hcomplete
              · rw [if_neg hfull'] at hrest
                refine ⟨Nat.le_of_succ_le (levels_depth_le hrest),
                  (hy mid hmid).trans (levels_grows hrest), ?_⟩
                intro hcomplete
                cases hcomplete

end Dynamics

/-- A system is the beginning of another. What it has, the other one has too, and it refers to
    the same states by the same numbers. -/
structure TransitionSystem.Begins (system whole : TransitionSystem σ String String) : Prop where
  states_begin : system.states.toList <+: whole.states.toList
  idOf?_eq : ∀ s ∈ system.states, whole.idOf? s = system.idOf? s
  labelsOf?_eq : ∀ s ∈ system.states, whole.labelsOf? s = system.labelsOf? s
  initial_eq : whole.initial = system.initial
  mem_transitions : ∀ step ∈ system.transitions, step ∈ whole.transitions
  mem_actions : ∀ action ∈ system.actions, action ∈ whole.actions
  mem_propositions : ∀ p ∈ system.propositions, p ∈ whole.propositions

namespace TransitionSystem.Grows

variable {d : Dynamics Id σ ι} {system grown : TransitionSystem σ String String}

theorem idOf?_eq (h : system.Grows limits grown) {s : σ} (hs : s ∈ system.states) :
    grown.idOf? s = system.idOf? s := by
  rcases mem_states_iff.mp hs with ⟨id, hid⟩
  rw [idOf?_eq_some_iff.mpr hid, idOf?_eq_some_iff.mpr (h.state?_eq_some hid)]

/-- The labels of a state depend on nothing else, so the states that were there have the same
    ones. -/
theorem labelsOf?_labelled_eq (h : system.Grows limits grown) {s : σ} (hs : s ∈ system.states) :
    (d.labelled grown).labelsOf? s = (d.labelled system).labelsOf? s := by
  rcases mem_states_iff.mp hs with ⟨id, hid⟩
  have hid' : (d.labelled system).idOf? s = some id := idOf?_eq_some_iff.mpr hid
  have hgrown : (d.labelled grown).idOf? s = some id :=
    idOf?_eq_some_iff.mpr (h.state?_eq_some hid)
  have hlt : id < system.states.toList.length := lt_size_of_state? hid
  rcases h.states_prefix with ⟨more, hmore⟩
  rw [labelsOf?, labelsOf?, hid', hgrown]
  simp only [bind, Option.bind, labelsAt?, Dynamics.labelled, ← hmore, List.map_append]
  rw [List.getElem?_append_left]
  rw [List.length_map]
  exact hlt

/-- With its labels a system is the beginning of what it has grown into. -/
theorem labelled_begins (h : system.Grows limits grown) :
    (d.labelled system).Begins (d.labelled grown) where
  states_begin := h.states_prefix
  idOf?_eq := fun s hs => h.idOf?_eq hs
  labelsOf?_eq := fun s hs => h.labelsOf?_labelled_eq hs
  initial_eq := h.initial_eq
  mem_transitions := fun step hstep => h.mem_transitions hstep
  mem_actions := fun action haction => h.mem_actions haction
  mem_propositions := by
    intro p hp
    simp only [Dynamics.labelled, OrderedSet.ofList, OrderedSet.mem_foldl_insert,
      List.mem_flatMap] at hp ⊢
    refine hp.imp_right ?_
    intro hlabel
    rcases hlabel with ⟨s, hs, hp⟩
    exact ⟨s, h.states_prefix.subset hs, hp⟩

end TransitionSystem.Grows

/-- Tighter limits change nothing but where an exploration ends. If it fails, then it does so
    under looser limits as well, and with the same error. What it finds is the beginning of what
    is found under looser limits, after at most as many levels, and it is all of that if the
    exploration is complete. The looser exploration must have ended for this; the budgets may be
    different. -/
theorem explore_tighter_begins_looser (d : Dynamics Id σ ι) (limits looser : Limits)
    (budget budget' : Nat) (h : limits.Tighter looser)
    (hended : (d.explore looser budget').run ≠ .ok none) :
    (∀ err, (d.explore limits budget).run = .error err →
      (d.explore looser budget').run = .error err) ∧
    ∀ found whole, (d.explore limits budget).run = .ok (some found) →
      (d.explore looser budget').run = .ok (some whole) →
      found.system.Begins whole.system ∧ found.depth ≤ whole.depth ∧
        (found.outcome = .complete → whole = found) := by
  cases hstarts : d.initial.run with
  | error e =>
      -- Both fail before the limits come up.
      have hask : (Explore.ask d.initial : Explore Id σ (List σ)).run = .error (.eval e) :=
        Explore.run_ask_eq_error_iff.mpr ⟨e, rfl, hstarts⟩
      have hfails : ∀ limits budget, (d.explore limits budget).run = .error (.eval e) :=
        fun _ _ => run_bind_of_error hask
      rw [hfails limits budget, hfails looser budget']
      refine ⟨fun err herr => herr, ?_⟩
      intro found whole hfound
      cases hfound
  | ok starts =>
      rcases Dynamics.run_explore_eq_map hstarts with ⟨system, -, hrun⟩
      rw [hrun] at hended
      rw [hrun, hrun]
      cases Dynamics.levels_surpasses (d := d) h budget budget' 0 (List.range' 0 system.states.size)
        system with
      | error hx hy =>
          rcases hy with hy | hy
          · rw [hx, hy]
            refine ⟨fun err herr => herr, ?_⟩
            intro found whole hfound
            cases hfound
          · rw [hy] at hended
            exact absurd rfl hended
      | spent hx =>
          rw [hx]
          constructor
          · intro err herr
            cases herr
          · intro found whole hfound
            cases hfound
      | @found ended hx hy =>
          rw [hx]
          constructor
          · intro err herr
            cases herr
          · intro found whole hfound hwhole
            cases hfound
            rcases exists_of_map_eq_ok_some hwhole with ⟨ended', hlevels, rfl⟩
            rcases hy ended' hlevels with ⟨hdepth, hgrows, hcomplete⟩
            refine ⟨hgrows.labelled_begins, hdepth, ?_⟩
            intro houtcome
            rw [hcomplete houtcome]

/-- With room for two states and two levels the relay is cut off, and what it has by then is the
    beginning of the whole. -/
theorem relay_tighter_begins_looser :
    ∃ found whole, (Table.relay.explore ⟨some 2, some 2⟩ 2).run = .ok (some found) ∧
      (Table.relay.explore ⟨some 3, none⟩ 5).run = .ok (some whole) ∧
      found.outcome = .stateLimit ∧ whole.outcome = .complete ∧
      found.system.Begins whole.system ∧ found.depth ≤ whole.depth := by
  have hfound : Explore.ending? (Table.relay.explore ⟨some 2, some 2⟩ 2) =
      some (.stateLimit, 1) := by
    decide +kernel
  have hwhole : Explore.ending? (Table.relay.explore ⟨some 3, none⟩ 5) = some (.complete, 3) := by
    decide +kernel
  rcases Explore.exists_of_ending? hfound with ⟨found, hrun, houtcome, -⟩
  rcases Explore.exists_of_ending? hwhole with ⟨whole, hrun', houtcome', -⟩
  have htighter : Limits.Tighter ⟨some 2, some 2⟩ ⟨some 3, none⟩ := by
    refine ⟨?_, ?_⟩
    · intro bound hbound
      cases hbound
      exact ⟨2, by omega, rfl⟩
    · intro bound hbound
      cases hbound
  have hended : (Table.relay.explore ⟨some 3, none⟩ 5).run ≠ .ok none := by
    rw [hrun']
    intro hnone
    cases hnone
  rcases (explore_tighter_begins_looser Table.relay ⟨some 2, some 2⟩ ⟨some 3, none⟩ 2 5 htighter
    hended).2 found whole hrun hrun' with ⟨hbegins, hdepth, -⟩
  exact ⟨found, whole, hrun, hrun', houtcome, houtcome', hbegins, hdepth⟩

end Interleaving
