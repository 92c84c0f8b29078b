import Interleaving.Proofs.Exploration.Levels

/-!
# What a Search Asks

A state space may have effects of its own, in a monad `m`, and then the same question
can have different answers at different times. What is known about a computation in
`m` is which results it can have, `CanReturn`; the lemmas of the first section take
computations apart by it. Over `Id` there is one result, and `CanReturn` is equality.

Which questions a search asks, and how often, is not part of what it returns.
`Dynamics.logged` makes it visible: it is the same state space, but it writes down every
state whose inputs it is asked for. It does nothing else, so a search over it runs as it
would without the log, which is `forgets_logged_explore`.

## Main definitions

* `Dynamics.logged`: A state space that writes down the states it is asked about.
* `Explore.Quiet`, `Explore.Forgets`: A computation with a log does what one without does,
  and leaves the log alone or not.
* `Dynamics.asked`: What a search without effects writes down.

## Theorems

* `canReturn_run_bind`, `canReturn_run_bind_log`: The results of a sequence.
* `Dynamics.quiet_logged_follow`: The inputs of a state are followed without asking for
  others.
* `Dynamics.forgets_logged_explore`: The log changes nothing.
-/

namespace Interleaving

open MonadAttach (CanReturn)

variable {m : Type → Type} [Monad m] {σ ι ε α β : Type}

/-- A pure computation has one result. -/
theorem canReturn_iff_run_eq {x : ExceptT ε Id α} {a : α} : CanReturn x a ↔ x.run = .ok a :=
  Iff.rfl

section Results

variable [LawfulMonad m] [MonadAttach m] [LawfulMonadAttach m]

/-- A sequence fails with its first part, or goes on from a result of it. -/
theorem canReturn_run_bind {x : ExceptT ε m α} {f : α → ExceptT ε m β} {r : Except ε β}
    (h : CanReturn (x >>= f).run r) :
    (∃ e, r = .error e ∧ CanReturn x.run (.error e)) ∨
      ∃ a, CanReturn x.run (.ok a) ∧ CanReturn (f a).run r := by
  rw [ExceptT.run_bind] at h
  rcases LawfulMonadAttach.canReturn_bind_imp' h with ⟨first, hx, hrest⟩
  cases first with
  | error e => exact Or.inl ⟨e, (LawfulMonadAttach.eq_of_canReturn_pure hrest).symm, hx⟩
  | ok a => exact Or.inr ⟨a, hx, hrest⟩

/-- The same with a log, which the first part may have made longer. -/
theorem canReturn_run_bind_log {x : ExceptT ε (StateT (List σ) m) α}
    {f : α → ExceptT ε (StateT (List σ) m) β} {log log' : List σ} {r : Except ε β}
    (h : CanReturn ((x >>= f).run.run log) (r, log')) :
    (∃ e, r = .error e ∧ CanReturn (x.run.run log) (.error e, log')) ∨
      ∃ a mid, CanReturn (x.run.run log) (.ok a, mid) ∧
        CanReturn ((f a).run.run mid) (r, log') := by
  rw [ExceptT.run_bind, StateT.run_bind] at h
  rcases LawfulMonadAttach.canReturn_bind_imp' h with ⟨⟨first, mid⟩, hx, hrest⟩
  cases first with
  | error e =>
      have heq := LawfulMonadAttach.eq_of_canReturn_pure hrest
      rw [Prod.mk.injEq] at heq
      exact Or.inl ⟨e, heq.1.symm, heq.2 ▸ hx⟩
  | ok a => exact Or.inr ⟨a, mid, hx, hrest⟩

theorem canReturn_run_pure {a : α} {r : Except ε α}
    (h : CanReturn (pure a : ExceptT ε m α).run r) : r = .ok a :=
  (LawfulMonadAttach.eq_of_canReturn_pure h).symm

theorem canReturn_run_pure_log {a : α} {log log' : List σ} {r : Except ε α}
    (h : CanReturn ((pure a : ExceptT ε (StateT (List σ) m) α).run.run log) (r, log')) :
    r = .ok a ∧ log' = log := by
  have heq := LawfulMonadAttach.eq_of_canReturn_pure h
  rw [Prod.mk.injEq] at heq
  exact ⟨heq.1.symm, heq.2.symm⟩

end Results

/-- A computation that writes something into a log, whatever comes out of it. -/
def Eval.noting (note : List σ) (x : Eval m α) : Eval (StateT (List σ) m) α :=
  ExceptT.mk fun log => (fun r => (r, log ++ note)) <$> x.run

/-- The same state space, which writes down the states whose inputs it is asked for. -/
def Dynamics.logged (d : Dynamics m σ ι) : Dynamics (StateT (List σ) m) σ ι where
  initial := Eval.noting [] d.initial
  inputs s := Eval.noting [s] (d.inputs s)
  next s input := Eval.noting [] (d.next s input)
  action := d.action
  labels := d.labels

namespace Explore

theorem enter_ok (a : α) :
    (enter (.ok a : Except (ReferenceError σ String String) α) : Explore m σ α) = pure a :=
  rfl

theorem enter_error (e : ReferenceError σ String String) :
    (enter (.error e) : Explore m σ α) = throw (.system e) :=
  rfl

section Log

variable [LawfulMonad m]

theorem run_ask_noting (note log : List σ) (x : Eval m α) :
    (ask (Eval.noting note x) : Explore _ σ α).run.run log =
      (fun r => (r, log ++ note)) <$> (ask x : Explore m σ α).run := by
  have hnoting : (Eval.noting note x).run.run log = (fun r => (r, log ++ note)) <$> x.run := rfl
  have hask : (ask x : Explore m σ α).run = Except.mapError .eval <$> x.run := rfl
  have hlogged : (ask (Eval.noting note x) : Explore _ σ α).run =
      Except.mapError .eval <$> (Eval.noting note x).run := rfl
  rw [hlogged, hask, StateT.run_map, hnoting, Functor.map_map, Functor.map_map]

/-- A computation with a log does what one without does, and leaves the log alone. -/
def Quiet (y : Explore (StateT (List σ) m) σ α) (x : Explore m σ α) : Prop :=
  ∀ log, y.run.run log = (fun r => (r, log)) <$> x.run

/-- A computation with a log does what one without does, whatever it writes down. -/
def Forgets (y : Explore (StateT (List σ) m) σ α) (x : Explore m σ α) : Prop :=
  ∀ log, Prod.fst <$> y.run.run log = x.run

theorem Quiet.pure (a : α) : Quiet (Pure.pure a : Explore _ σ α) (Pure.pure a : Explore m σ α) := by
  intro log
  simp

theorem Quiet.ask (x : Eval m α) :
    Quiet (Explore.ask (Eval.noting [] x)) (Explore.ask x : Explore m σ α) := by
  intro log
  rw [run_ask_noting, List.append_nil]

theorem Quiet.enter (x : Except (ReferenceError σ String String) α) :
    Quiet (Explore.enter x : Explore _ σ α) (Explore.enter x : Explore m σ α) := by
  intro log
  cases x with
  | error e => simp [enter_error]
  | ok a => simp [enter_ok]

theorem Quiet.bind {y : Explore (StateT (List σ) m) σ α} {x : Explore m σ α}
    {g : α → Explore (StateT (List σ) m) σ β} {f : α → Explore m σ β} (h : Quiet y x)
    (hrest : ∀ a, Quiet (g a) (f a)) : Quiet (y >>= g) (x >>= f) := by
  intro log
  simp only [ExceptT.run_bind, StateT.run_bind, h log, bind_map_left, map_bind]
  congr 1
  funext r
  cases r with
  | error e => simp
  | ok a => exact hrest a log

theorem Quiet.forgets {y : Explore (StateT (List σ) m) σ α} {x : Explore m σ α} (h : Quiet y x) :
    Forgets y x := by
  intro log
  rw [h log, Functor.map_map]
  exact id_map' x.run

theorem Forgets.ask (note : List σ) (x : Eval m α) :
    Forgets (Explore.ask (Eval.noting note x)) (Explore.ask x) := by
  intro log
  rw [run_ask_noting, Functor.map_map]
  exact id_map' _

theorem Forgets.bind {y : Explore (StateT (List σ) m) σ α} {x : Explore m σ α}
    {g : α → Explore (StateT (List σ) m) σ β} {f : α → Explore m σ β} (h : Forgets y x)
    (hrest : ∀ a, Forgets (g a) (f a)) : Forgets (y >>= g) (x >>= f) := by
  intro log
  simp only [ExceptT.run_bind, StateT.run_bind, ← h log, bind_map_left, map_bind]
  congr 1
  funext p
  rcases p with ⟨r, mid⟩
  cases r with
  | error e => simp
  | ok a => exact hrest a mid

end Log

section Asked

variable [LawfulMonad m] [MonadAttach m] [LawfulMonadAttach m]

/-- A question is answered, or its failure is that of the exploration. -/
theorem canReturn_run_ask {x : Eval m α} {r : Except (ExplorationError σ String String) α}
    (h : CanReturn (ask x : Explore m σ α).run r) :
    (∃ e, r = .error (.eval e) ∧ CanReturn x.run (.error e)) ∨
      ∃ a, r = .ok a ∧ CanReturn x.run (.ok a) := by
  have hmap : CanReturn (Except.mapError .eval <$> x.run) r := h
  rcases LawfulMonadAttach.canReturn_map_imp' hmap with ⟨answer, hx, heq⟩
  cases answer with
  | error e => exact Or.inl ⟨e, heq.symm, hx⟩
  | ok a => exact Or.inr ⟨a, heq.symm, hx⟩

theorem canReturn_ask {x : Eval m α} {a : α} (h : CanReturn (ask x : Explore m σ α) a) :
    CanReturn x a := by
  rcases canReturn_run_ask h with ⟨e, herr, -⟩ | ⟨b, hok, hx⟩
  · cases herr
  · cases hok
    exact hx

theorem canReturn_run_enter {x : Except (ReferenceError σ String String) α} {a : α}
    (h : CanReturn (enter x : Explore m σ α).run (.ok a)) : x = .ok a := by
  cases x with
  | error e =>
      rw [enter_error] at h
      cases LawfulMonadAttach.eq_of_canReturn_pure h
  | ok b =>
      rw [enter_ok] at h
      cases canReturn_run_pure h
      rfl

/-- A question that is written down is answered in the same way. -/
theorem canReturn_run_ask_noting {note log log' : List σ} {x : Eval m α}
    {r : Except (ExplorationError σ String String) α}
    (h : CanReturn ((ask (Eval.noting note x) : Explore _ σ α).run.run log) (r, log')) :
    log' = log ++ note ∧ ((∃ e, r = .error (.eval e) ∧ CanReturn x.run (.error e)) ∨
      ∃ a, r = .ok a ∧ CanReturn x.run (.ok a)) := by
  rw [run_ask_noting] at h
  rcases LawfulMonadAttach.canReturn_map_imp' h with ⟨r', hx, heq⟩
  rw [Prod.mk.injEq] at heq
  exact ⟨heq.2.symm, canReturn_run_ask (heq.1 ▸ hx)⟩

theorem Quiet.canReturn {y : Explore (StateT (List σ) m) σ α} {x : Explore m σ α} (h : Quiet y x)
    {log log' : List σ} {r : Except (ExplorationError σ String String) α}
    (hy : CanReturn (y.run.run log) (r, log')) : log' = log ∧ CanReturn x.run r := by
  rw [h log] at hy
  rcases LawfulMonadAttach.canReturn_map_imp' hy with ⟨r', hx, heq⟩
  rw [Prod.mk.injEq] at heq
  exact ⟨heq.2.symm, heq.1 ▸ hx⟩

theorem Forgets.canReturn {y : Explore (StateT (List σ) m) σ α} {x : Explore m σ α}
    (h : Forgets y x) {r : Except (ExplorationError σ String String) α}
    (hx : CanReturn x.run r) (log : List σ) : ∃ log', CanReturn (y.run.run log) (r, log') := by
  rw [← h log] at hx
  rcases LawfulMonadAttach.canReturn_map_imp' hx with ⟨⟨r', log'⟩, hy, heq⟩
  exact ⟨log', heq ▸ hy⟩

end Asked

end Explore

namespace Dynamics

variable [LawfulMonad m] [DecidableEq σ] (d : Dynamics m σ ι) (limits : Limits)

/-- The inputs of a state are followed without asking for those of others. -/
theorem quiet_logged_follow (source : Nat) (s : σ) (inputs : List ι) (search : Search σ) :
    Explore.Quiet (d.logged.follow limits source s inputs search)
      (d.follow limits source s inputs search) := by
  induction inputs generalizing search with
  | nil => exact Explore.Quiet.pure search
  | cons input rest ih =>
      rw [follow, follow]
      refine .bind (.ask _) fun target => .bind (.enter _) fun next => ?_
      by_cases hfull : next.full = true
      · rw [if_pos hfull, if_pos hfull]
        exact .pure next
      · rw [if_neg hfull, if_neg hfull]
        exact ih next

theorem forgets_logged_expand (frontier : List Nat) (search : Search σ) :
    Explore.Forgets (d.logged.expand limits frontier search) (d.expand limits frontier search) := by
  induction frontier generalizing search with
  | nil => exact (Explore.Quiet.pure search).forgets
  | cons id rest ih =>
      rw [expand, expand]
      refine .bind (Explore.Quiet.enter _).forgets fun s => .bind (.ask _ _) fun inputs =>
        .bind (d.quiet_logged_follow limits id s inputs search).forgets fun next => ?_
      by_cases hfull : next.full = true
      · rw [if_pos hfull, if_pos hfull]
        exact (Explore.Quiet.pure next).forgets
      · rw [if_neg hfull, if_neg hfull]
        exact ih next

theorem forgets_logged_levels (budget depth : Nat) (frontier : List Nat)
    (system : TransitionSystem σ String String) :
    Explore.Forgets (d.logged.levels limits budget depth frontier system)
      (d.levels limits budget depth frontier system) := by
  fun_induction d.levels limits budget depth frontier system with
  | case1 =>
      rw [levels_nil]
      exact (Explore.Quiet.pure _).forgets
  | case2 budget depth frontier system hne hdepth =>
      rw [levels_of_depthReached _ hne hdepth]
      exact (Explore.Quiet.pure _).forgets
  | case3 depth frontier system hne hdepth =>
      rw [levels_zero _ hne (Bool.eq_false_iff.mpr hdepth)]
      exact (Explore.Quiet.pure _).forgets
  | case4 depth frontier system hne hdepth budget ih =>
      rw [levels_succ _ hne (Bool.eq_false_iff.mpr hdepth)]
      refine .bind (d.forgets_logged_expand limits frontier _) fun search => ?_
      by_cases hfull : search.full = true
      · rw [if_pos hfull, if_pos hfull]
        exact (Explore.Quiet.pure _).forgets
      · rw [if_neg hfull, if_neg hfull]
        exact ih search

/-- The log changes nothing. -/
theorem forgets_logged_explore (budget : Nat) :
    Explore.Forgets (d.logged.explore limits budget) (d.explore limits budget) := by
  rw [explore, explore]
  refine .bind (.ask _ _) fun starts => .bind (Explore.Quiet.enter _).forgets fun entered =>
    .bind (d.forgets_logged_levels limits budget 0 _ _) fun found? => ?_
  cases found? with
  | none => exact (Explore.Quiet.pure none).forgets
  | some found =>
      exact (Explore.Quiet.bind (.enter _) fun system => .pure _).forgets

end Dynamics

/-- The states a search without effects asks about, in order. -/
def Dynamics.asked [DecidableEq σ] (d : Dynamics Id σ ι) (limits : Limits) (budget : Nat) :
    List σ :=
  ((d.logged.explore limits budget).run.run []).run.2

theorem Dynamics.canReturn_logged_explore [DecidableEq σ] (d : Dynamics Id σ ι) (limits : Limits)
    (budget : Nat) : CanReturn ((d.logged.explore limits budget).run.run [])
      ((d.explore limits budget).run, d.asked limits budget) :=
  Prod.ext (d.forgets_logged_explore limits budget []) rfl

end Interleaving
