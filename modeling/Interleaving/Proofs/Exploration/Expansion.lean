import Interleaving.Proofs.Exploration.Progress

/-!
# Expanding a Level

While the level of the states at distance `n` is expanded, the states below a
fixed number `bound` are those that were met before the expansion began, and
every other one has turned up since and waits in `fresh` for the next level.
`Expanding` adds this to `Progress`. It also keeps how far away the states can
be: a successor of a state of the level is at most one step further.

An expansion ends in one of two ways. Either it goes through the whole level, or
it meets a new state that may not be kept and stops in the middle of the inputs
of some state, which is `Overflows`. The run lemmas say this for the inputs of
one state and for a list of states; both are inductions over what is left to do
with `Expanding` as the invariant.

## Main definitions

* `Expanding`: The invariant of the expansion of a level.
* `Overflows`: The expansion has met a state that may not be kept.

## Theorems

* `Expanding.record`: What one input does.
* `Expanding.follow`: What the inputs of a state do.
* `Expanding.expand`: What the states of a level do.
-/

namespace Interleaving

variable {σ ι : Type}

/-- The invariant of the expansion of the level at distance `n`. The states
    below `bound` were known before; of these the ones below `k` are expanded,
    and `k` as far as the inputs `part`. -/
structure Expanding (d : Dynamics Id σ ι) (search : Search σ) (n bound k : Nat)
    (part : List ι) : Prop extends Progress d search.system k part where
  bound_le : bound ≤ search.system.states.size
  fresh_eq : search.fresh = List.range' bound (search.system.states.size - bound)
  numbers : search.system.Numbers bound (d.Before (n + 1))
  /-- From `k` on no state is nearer than the level. -/
  not_nearer : ∀ id s, k ≤ id → search.system.state? id = some s → ¬ d.Before n s
  met : ∀ s ∈ search.system.states, d.Before (n + 2) s

/-- The expansion of a level has met a state that may not be kept. It is where
    the first input leads that is not recorded of some state of the level. -/
def Overflows (d : Dynamics Id σ ι) (limits : Limits) (search : Search σ) (n bound : Nat) : Prop :=
  ∃ k < bound, ∃ s part input rest t, Expanding d search n bound k part ∧
    search.system.state? k = some s ∧ (d.inputs s).run = .ok (part ++ input :: rest) ∧
    (d.next s input).run = .ok t ∧ t ∉ search.system.states ∧
    limits.statesReached search.system.states.size = true

/-- Without a state limit every state is kept. -/
theorem Overflows.maxStates_ne_none {d : Dynamics Id σ ι} {limits : Limits} {search : Search σ}
    {n bound : Nat} (h : Overflows d limits search n bound) : limits.maxStates ≠ none := by
  intro hnone
  rcases h with ⟨k, -, s, part, input, rest, t, -, -, -, -, -, hreached⟩
  rw [Limits.statesReached, hnone] at hreached
  cases hreached

namespace Expanding

variable {d : Dynamics Id σ ι} {limits : Limits} {search search' : Search σ} {n bound k : Nat}
  {part : List ι} {s : σ}

/-- A state of the level has been met before, so its successors are at most one
    step further. -/
theorem before_of_leads (h : Expanding d search n bound k part) (hk : k < bound)
    (hs : search.system.state? k = some s) {action : String} {t : σ} (hst : d.Leads s action t) :
    d.Before (n + 2) t := by
  have hbefore : d.Before (n + 1) s := (h.numbers s).mpr ⟨k, hk, hs⟩
  exact hbefore.step hst

/-- The states that were known before and are not expanded are those of the level. -/
theorem isDistance (h : Expanding d search n bound k part) (hk : k < bound)
    (hs : search.system.state? k = some s) : d.IsDistance n s :=
  (Dynamics.isDistance_iff_before n s).mpr
    ⟨(h.numbers s).mpr ⟨k, hk, hs⟩, h.not_nearer k s (Nat.le_refl k) hs⟩

theorem mem_states_of_isDistance (h : Expanding d search n bound k part) {m : Nat} (hm : m ≤ n)
    (hs : d.IsDistance m s) : s ∈ search.system.states := by
  have hbefore : d.Before (n + 1) s := ⟨m, by omega, hs.1⟩
  rcases (h.numbers s).mp hbefore with ⟨id, -, hid⟩
  exact TransitionSystem.mem_states_of_state? hid

/-- With its last input the state `k` is expanded, and the next one is up. -/
theorem nextState (h : Expanding d search n bound k part) (hs : search.system.state? k = some s)
    (hinputs : (d.inputs s).run = .ok part) : Expanding d search n bound (k + 1) [] :=
  { h with
    toProgress := h.toProgress.advance hs hinputs
    not_nearer := fun id u hid hu => h.not_nearer id u (by omega) hu }

variable [DecidableEq σ]

/-- Recording a step to a known state. -/
theorem withStep (h : Expanding d search n bound k part) {t : σ} {input : ι} {target : Nat}
    (hs : search.system.state? k = some s) (hnext : (d.next s input).run = .ok t)
    (htarget : search.system.state? target = some t) :
    Expanding d { search with system := search.system.withStep ⟨k, d.action input, target⟩ }
      n bound k (part ++ [input]) where
  toProgress := h.toProgress.withStep hs hnext htarget
  bound_le := h.bound_le
  fresh_eq := h.fresh_eq
  numbers := h.numbers
  not_nearer := h.not_nearer
  met := h.met

/-- Adding a state that is new and not too far away. -/
theorem withState (h : Expanding d search n bound k part) (hk : k < bound) {t : σ}
    (ht : t ∉ search.system.states) (hmet : d.Before (n + 2) t) :
    Expanding d { search with
      system := search.system.withState t
      fresh := search.fresh ++ [search.system.states.size] } n bound k part where
  toProgress := by
    have hle := h.bound_le
    exact h.toProgress.withState (by omega) ht
  bound_le := by
    have hle := h.bound_le
    simp only [TransitionSystem.size_withState ht]
    omega
  fresh_eq := by
    have hle := h.bound_le
    simp only [TransitionSystem.size_withState ht, h.fresh_eq]
    rw [show search.system.states.size + 1 - bound = search.system.states.size - bound + 1 by omega,
      List.range'_concat]
    congr 2
    omega
  numbers := h.numbers.withState h.bound_le ht
  not_nearer := by
    intro id s hid hs hbefore
    rw [TransitionSystem.state?_withState ht] at hs
    by_cases hnew : id = search.system.states.size
    · -- Everything nearer was known before, and the state is new.
      rw [if_pos hnew, Option.some.injEq] at hs
      rcases (h.numbers s).mp (hbefore.mono (by omega)) with ⟨old, -, hold⟩
      exact ht (hs ▸ TransitionSystem.mem_states_of_state? hold)
    · rw [if_neg hnew] at hs
      exact h.not_nearer id s hid hs hbefore
  met := by
    intro s hs
    rcases TransitionSystem.mem_states_withState.mp hs with heq | hold
    · rw [heq]
      exact hmet
    · exact h.met s hold

/-- What one input does. Either its step is recorded, or it leads to a new state
    that may not be kept and only fills the search. -/
theorem record (h : Expanding d search n bound k part) (hk : k < bound)
    (hs : search.system.state? k = some s) (hfull : search.full = false) {t : σ} {input : ι}
    (hst : d.Leads s (d.action input) t) (hnext : (d.next s input).run = .ok t)
    (hrec : search.record limits k (d.action input) t = .ok search') :
    (search'.full = false ∧ search'.system.state? k = some s ∧
        Expanding d search' n bound k (part ++ [input])) ∨
      (search' = { search with full := true } ∧ t ∉ search.system.states ∧
        limits.statesReached search.system.states.size = true) := by
  by_cases ht : t ∈ search.system.states
  · rcases TransitionSystem.mem_states_iff.mp ht with ⟨target, htarget⟩
    rw [Search.record_of_known hs htarget, Except.ok.injEq] at hrec
    rw [← hrec]
    exact Or.inl ⟨hfull, hs, h.withStep hs hnext htarget⟩
  · cases hlimit : limits.statesReached search.system.states.size with
    | true =>
        rw [Search.record_of_full ht hlimit, Except.ok.injEq] at hrec
        exact Or.inr ⟨hrec.symm, ht, rfl⟩
    | false =>
        rw [Search.record_of_new hs ht hlimit, Except.ok.injEq] at hrec
        rw [← hrec]
        -- The state comes in first and gets the next number, then the step.
        have hadded := h.withState hk ht (h.before_of_leads hk hs hst)
        have hs' := TransitionSystem.state?_withState_of_state? ht hs
        exact Or.inl ⟨hfull, hs', hadded.withStep hs' hnext
          (TransitionSystem.state?_withState_size ht)⟩

/-- What the inputs of a state do, by induction on those that are left. -/
theorem follow {rest : List ι} (h : Expanding d search n bound k part) (hk : k < bound)
    (hs : search.system.state? k = some s) (hfull : search.full = false)
    (hinputs : (d.inputs s).run = .ok (part ++ rest))
    (hrun : (d.follow limits k s rest search).run = .ok search') :
    (search'.full = false ∧ search'.system.state? k = some s ∧
        Expanding d search' n bound k (part ++ rest)) ∨
      (search'.full = true ∧ Overflows d limits search' n bound) := by
  induction rest generalizing part search with
  | nil =>
      rw [Dynamics.follow, run_pure_eq_ok_iff] at hrun
      rw [← hrun, List.append_nil]
      exact Or.inl ⟨hfull, hs, h⟩
  | cons input rest ih =>
      rw [Dynamics.follow] at hrun
      rcases run_bind_eq_ok_iff.mp hrun with ⟨t, hask, hrun⟩
      rcases run_bind_eq_ok_iff.mp hrun with ⟨mid, henter, hrun⟩
      rw [Explore.run_ask_eq_ok_iff] at hask
      rw [Explore.run_enter_eq_ok_iff] at henter
      have hmem : input ∈ part ++ input :: rest :=
        List.mem_append_right _ List.mem_cons_self
      have hst : d.Leads s (d.action input) t := ⟨_, hinputs, input, hmem, rfl, hask⟩
      rcases h.record hk hs hfull hst hask henter with ⟨hmid, hsmid, hnext⟩ | ⟨hmid, ht, hlimit⟩
      · rw [if_neg (by rw [hmid]; exact Bool.false_ne_true)] at hrun
        have hassoc : part ++ input :: rest = part ++ [input] ++ rest :=
          (List.append_assoc part [input] rest).symm
        rw [hassoc] at hinputs ⊢
        exact ih hnext hsmid hmid hinputs hrun
      · rw [if_pos (by rw [hmid]), run_pure_eq_ok_iff] at hrun
        rw [← hrun, hmid]
        -- The flag is no part of the invariant.
        have hstop : Expanding d { search with full := true } n bound k part :=
          { h with toProgress := h.toProgress }
        exact Or.inr ⟨rfl, k, hk, s, part, input, rest, t, hstop, hs, hinputs, hask, ht, hlimit⟩

/-- What the states of a level do, by induction on how many are left. -/
theorem expand {m : Nat} (h : Expanding d search n bound k []) (hkm : k + m = bound)
    (hfull : search.full = false)
    (hrun : (d.expand limits (List.range' k m) search).run = .ok search') :
    (search'.full = false ∧ Expanding d search' n bound bound []) ∨
      (search'.full = true ∧ Overflows d limits search' n bound) := by
  induction m generalizing k search with
  | zero =>
      rw [List.range'_zero, Dynamics.expand, run_pure_eq_ok_iff] at hrun
      rw [← hrun, show bound = k by omega]
      exact Or.inl ⟨hfull, show k = bound by omega ▸ h⟩
  | succ m ih =>
      have hk : k < bound := by omega
      have hle := h.bound_le
      rcases TransitionSystem.exists_state?_of_lt (t := search.system) (show k < _ by omega) with
        ⟨s, hs⟩
      rw [List.range'_succ, Dynamics.expand] at hrun
      rcases run_bind_eq_ok_iff.mp hrun with ⟨s', hstate, hrun⟩
      rcases run_bind_eq_ok_iff.mp hrun with ⟨inputs, hinputs, hrun⟩
      rcases run_bind_eq_ok_iff.mp hrun with ⟨mid, hfollow, hrun⟩
      rw [Explore.run_enter_eq_ok_iff, TransitionSystem.stateAt_of_state? hs,
        Except.ok.injEq] at hstate
      rw [← hstate] at hinputs hfollow
      rw [Explore.run_ask_eq_ok_iff] at hinputs
      have hnone : (d.inputs s).run = .ok ([] ++ inputs) := hinputs
      rcases h.follow hk hs hfull hnone hfollow with ⟨hmid, hsmid, hnext⟩ | ⟨hmid, hover⟩
      · rw [if_neg (by rw [hmid]; exact Bool.false_ne_true)] at hrun
        exact ih (hnext.nextState hsmid hinputs) (by omega) hmid hrun
      · rw [if_pos hmid, run_pure_eq_ok_iff] at hrun
        rw [← hrun]
        exact Or.inr ⟨hmid, hover⟩

end Expanding

end Interleaving
