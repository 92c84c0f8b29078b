import Interleaving.Exploration
import Mathlib.Data.List.Forall2

/-!
# Pure Computations That May Fail

A computation over the monad `Id` has no effects besides failing, so it is a
result or an error and nothing else. The lemmas here take such computations
apart: a sequence gives a result exactly if its parts do, one after the other, and
its error is that of the first part that fails.

Sometimes both sides are wanted at once, when a computation fails and what it gives
otherwise. `GivesUnless` says this with a condition for the failure; which error
it is does not matter. The conditions add up along a sequence and along a loop.

Two computations may also be compared with each other, step by step. `Tracks` says that they
go the same way, with one relation between their errors and one between their results.
`SameUnless` says more where it says something: they are the same computation, and only a
failure of the first that is excused lets the second do as it likes.

`FailsOnly` is about the errors of one computation alone, wherever in it they come from.

## Main definitions

* `GivesUnless`: A result, unless some condition makes the computation fail.
* `Tracks`: Two computations that go the same way.
* `SameUnless`: A computation and another one in its place.
* `FailsOnly`: The errors of a computation have a property.

## Theorems

* `mapM_map_eq_some`: A list of answers that are all there.
* `bind_eq_ok_iff`, `bind_eq_error_iff`: When plain answers give a result, and when they do
  not.
* `run_bind_eq_ok_iff`, `run_bind_eq_error_iff`: When a sequence gives a result, and
  when it fails.
* `run_mapM_eq_ok_iff`, `exists_run_mapM_eq_error_iff`: The same for a list of computations.
* `run_guarded_eq_ok_iff`, `run_guarded_eq_error_iff`: The same for a computation
  behind a condition.
* `Explore.run_ask_eq_ok_iff`, `Explore.run_enter_eq_ok_iff`: The two kinds of
  answers an exploration waits for.
* `GivesUnless.bind`, `GivesUnless.mapM`, `GivesUnless.collect`: A sequence, a
  list of computations, and a loop that collects lists.
* `Tracks.bind`, `Tracks.mapM`: Two sequences, and one list gone through in two ways.
* `SameUnless.bind`, `SameUnless.mapM`, `SameUnless.foldlM`: Parts put in place of parts.
* `FailsOnly.bind`, `FailsOnly.mapM`, `FailsOnly.foldlM`: The errors of the parts are all there
  are.
-/

namespace Interleaving

-- The results of a run have type `Id (Except ε α)`, where the injectivity of the
-- constructors of `Except` is not found by its type.
@[simp] theorem ok_eq_ok_iff {ε α : Type} {a b : α} :
    @Eq (Id (Except ε α)) (Except.ok a) (Except.ok b) ↔ a = b :=
  iff_of_eq (Except.ok.injEq a b)

@[simp] theorem error_eq_error_iff {ε α : Type} {e e' : ε} :
    @Eq (Id (Except ε α)) (Except.error e) (Except.error e') ↔ e = e' :=
  iff_of_eq (Except.error.injEq e e')

/-- What is undone for each member of a list is undone for the list. -/
theorem mapM_map_eq_some {α β : Type} {f : α → β} {g : β → Option α} {l : List α}
    (h : ∀ a ∈ l, g (f a) = some a) : (l.map f).mapM g = some l := by
  induction l with
  | nil => rfl
  | cons a rest ih =>
      rw [List.map_cons, List.mapM_cons, h a List.mem_cons_self,
        ih fun b hb => h b (List.mem_cons_of_mem a hb)]
      rfl

section Answers

variable {ε α β : Type} {x : Except ε α}

/-- A sequence of plain answers. -/
theorem bind_eq_ok_iff {f : α → Except ε β} {b : β} :
    (x >>= f) = .ok b ↔ ∃ a, x = .ok a ∧ f a = .ok b := by
  cases x <;> simp [bind, Except.bind]

theorem bind_eq_error_iff {f : α → Except ε β} {e : ε} :
    (x >>= f) = .error e ↔ x = .error e ∨ ∃ a, x = .ok a ∧ f a = .error e := by
  cases x <;> simp [bind, Except.bind]

theorem pure_eq_ok_iff {a b : α} : (pure a : Except ε α) = .ok b ↔ a = b := by
  simp [pure, Except.pure]

end Answers

section Sequence

variable {ε α β : Type} {x : ExceptT ε Id α} {f : α → ExceptT ε Id β}

theorem run_bind_of_ok {a : α} (h : x.run = .ok a) : (x >>= f).run = (f a).run := by
  rw [ExceptT.run_bind, h]
  rfl

theorem run_bind_of_error {e : ε} (h : x.run = .error e) : (x >>= f).run = .error e := by
  rw [ExceptT.run_bind, h]
  rfl

theorem run_bind_eq_ok_iff {b : β} :
    (x >>= f).run = .ok b ↔ ∃ a, x.run = .ok a ∧ (f a).run = .ok b := by
  cases hx : x.run with
  | error e =>
      rw [run_bind_of_error hx]
      simp
  | ok a =>
      rw [run_bind_of_ok hx]
      simp

theorem run_bind_eq_error_iff {e : ε} : (x >>= f).run = .error e ↔
    x.run = .error e ∨ ∃ a, x.run = .ok a ∧ (f a).run = .error e := by
  cases hx : x.run with
  | error e' =>
      rw [run_bind_of_error hx]
      simp
  | ok a =>
      rw [run_bind_of_ok hx]
      simp

/-- What cannot fail adds no failure. -/
theorem run_bind_eq_error_iff_of_ne {e : ε} (hf : ∀ a, (f a).run ≠ .error e) :
    (x >>= f).run = .error e ↔ x.run = .error e := by
  rw [run_bind_eq_error_iff]
  simp only [hf, and_false, exists_false, or_false]

theorem run_pure_eq_ok_iff {a b : α} : (pure a : ExceptT ε Id α).run = .ok b ↔ a = b :=
  ok_eq_ok_iff

/-- A plain answer as a computation. -/
theorem run_ofExcept (x : Except ε α) : (ofExcept x : ExceptT ε Id α).run = x := by
  cases x <;> rfl

/-- A list of computations gives what they give, each for itself. -/
theorem run_mapM_eq_ok_iff {l : List α} {f : α → ExceptT ε Id β} {found : List β} :
    (l.mapM f).run = .ok found ↔ List.Forall₂ (fun a b => (f a).run = .ok b) l found := by
  induction l generalizing found with
  | nil =>
      rw [List.mapM_nil, run_pure_eq_ok_iff, List.forall₂_nil_left_iff]
      exact eq_comm
  | cons a rest ih =>
      rw [List.mapM_cons, run_bind_eq_ok_iff, List.forall₂_cons_left_iff]
      constructor
      · intro h
        rcases h with ⟨b, hfirst, h⟩
        rcases run_bind_eq_ok_iff.mp h with ⟨others, hothers, h⟩
        exact ⟨b, others, hfirst, ih.mp hothers, (run_pure_eq_ok_iff.mp h).symm⟩
      · intro h
        rcases h with ⟨b, others, hfirst, hothers, rfl⟩
        exact ⟨b, hfirst, run_bind_eq_ok_iff.mpr ⟨others, ih.mpr hothers, rfl⟩⟩

/-- A list of computations fails exactly if one of them does. -/
theorem exists_run_mapM_eq_error_iff {l : List α} {f : α → ExceptT ε Id β} :
    (∃ e, (l.mapM f).run = .error e) ↔ ∃ a ∈ l, ∃ e, (f a).run = .error e := by
  induction l with
  | nil =>
      constructor
      · rintro ⟨e, h⟩
        cases h
      · rintro ⟨a, ha, -⟩
        cases ha
  | cons a rest ih =>
      rw [List.mapM_cons, List.exists_mem_cons_iff, ← ih]
      cases hfirst : (f a).run with
      | error e => exact ⟨fun _ => Or.inl ⟨e, rfl⟩, fun _ => ⟨e, run_bind_of_error hfirst⟩⟩
      | ok b =>
          have hnone : ¬ ∃ e, (Except.ok b : Except ε β) = .error e := nofun
          rw [run_bind_of_ok hfirst, or_iff_right hnone]
          exact exists_congr fun e => run_bind_eq_error_iff_of_ne fun _ => nofun

/-- What a list of computations gives comes from one of them. -/
theorem exists_run_of_mem_mapM {l : List α} {f : α → ExceptT ε Id β} {found : List β}
    (h : (l.mapM f).run = .ok found) {b : β} (hb : b ∈ found) : ∃ a ∈ l, (f a).run = .ok b := by
  have hall := run_mapM_eq_ok_iff.mp h
  induction hall with
  | nil => cases hb
  | @cons a b' rest others hfirst hrest ih =>
      rcases List.mem_cons.mp hb with rfl | hb
      · exact ⟨a, List.mem_cons_self, hfirst⟩
      · rcases ih (run_mapM_eq_ok_iff.mpr hrest) hb with ⟨a', ha', hrun⟩
        exact ⟨a', List.mem_cons_of_mem a ha', hrun⟩

end Sequence

section Guarded

variable {ε α : Type} {x : ExceptT ε Id Bool} {y : ExceptT ε Id α} {a b : α} {e : ε}

/-- A computation behind a condition, which is looked at first. -/
theorem run_guarded_eq_ok_iff : (do if ← x then y else return a : ExceptT ε Id α).run = .ok b ↔
    (x.run = .ok true ∧ y.run = .ok b) ∨ (x.run = .ok false ∧ a = b) := by
  rw [run_bind_eq_ok_iff]
  simp only [Bool.exists_bool, Bool.false_eq_true, if_false, if_true, run_pure_eq_ok_iff]
  exact or_comm

theorem run_guarded_eq_error_iff :
    (do if ← x then y else return a : ExceptT ε Id α).run = .error e ↔
      x.run = .error e ∨ (x.run = .ok true ∧ y.run = .error e) := by
  have hpure : (pure a : ExceptT ε Id α).run ≠ .error e := by
    intro h
    cases h
  rw [run_bind_eq_error_iff]
  simp only [Bool.exists_bool, Bool.false_eq_true, if_false, if_true, hpure, and_false, false_or]

end Guarded

theorem mapError_eq_ok_iff {ε ε' α : Type} {x : Except ε α} {f : ε → ε'} {a : α} :
    x.mapError f = .ok a ↔ x = .ok a := by
  cases x with
  | error e =>
      constructor
      · intro h
        cases h
      · intro h
        cases h
  | ok b =>
      constructor
      · intro h
        cases h
        rfl
      · intro h
        cases h
        rfl

theorem mapError_eq_error_iff {ε ε' α : Type} {x : Except ε α} {f : ε → ε'} {e' : ε'} :
    x.mapError f = .error e' ↔ ∃ e, e' = f e ∧ x = .error e := by
  cases x with
  | error e =>
      constructor
      · intro h
        cases h
        exact ⟨e, rfl, rfl⟩
      · intro h
        rcases h with ⟨e, rfl, he⟩
        cases he
        rfl
  | ok a =>
      constructor
      · intro h
        cases h
      · intro h
        rcases h with ⟨e, -, he⟩
        cases he

theorem exists_of_map_eq_ok_some {ε α β : Type} {x : Except ε (Option α)} {f : α → β} {b : β}
    (h : Except.map (Option.map f) x = .ok (some b)) : ∃ a, x = .ok (some a) ∧ b = f a := by
  cases x with
  | error e => cases h
  | ok a? =>
      cases a? with
      | none => cases h
      | some a =>
          cases h
          exact ⟨a, rfl, rfl⟩

theorem Explore.run_ask_eq_ok_iff {σ α : Type} {x : Eval Id α} {a : α} :
    (Explore.ask x : Explore Id σ α).run = .ok a ↔ x.run = .ok a :=
  mapError_eq_ok_iff (x := x.run)

theorem Explore.run_ask_eq_error_iff {σ α : Type} {x : Eval Id α}
    {err : ExplorationError σ String String} :
    (Explore.ask x : Explore Id σ α).run = .error err ↔ ∃ e, err = .eval e ∧ x.run = .error e :=
  mapError_eq_error_iff (x := x.run)

theorem Explore.run_enter_eq_ok_iff {σ α : Type} {x : Except (ReferenceError σ String String) α}
    {a : α} : (Explore.enter x : Explore Id σ α).run = .ok a ↔ x = .ok a := by
  have hrun : (Explore.enter x : Explore Id σ α).run = x.mapError .system := by
    cases x <;> rfl
  rw [hrun]
  exact mapError_eq_ok_iff

theorem run_eq_ok_of_toOption {ε α : Type} {x : ExceptT ε Id α} {a : α}
    (h : Except.toOption x.run = some a) : x.run = .ok a := by
  cases hx : x.run with
  | error e =>
      rw [hx] at h
      cases h
  | ok b =>
      rw [hx] at h
      cases h
      rfl

/-- The computation fails if `fails` holds, and gives `a` if not. -/
structure GivesUnless {ε α : Type} (x : ExceptT ε Id α) (fails : Prop) (a : α) : Prop where
  gives : ¬ fails → x.run = .ok a
  errs : fails → ∃ e, x.run = .error e

namespace GivesUnless

variable {ε α β : Type}

/-- The condition is a computation's own failure, and it has one possible result. -/
theorem of_iff {x : ExceptT ε Id α} {fails : Prop} {a : α}
    (hfails : (∃ e, x.run = .error e) ↔ fails) (hok : ∀ b, x.run = .ok b → b = a) :
    GivesUnless x fails a where
  gives := by
    intro hnot
    cases hx : x.run with
    | error e => exact absurd (hfails.mp ⟨e, hx⟩) hnot
    | ok b => rw [hok b hx]
  errs := hfails.mpr

theorem pure (a : α) : GivesUnless (Pure.pure a : ExceptT ε Id α) False a where
  gives := fun _ => rfl
  errs := False.elim

theorem congr {x : ExceptT ε Id α} {fails fails' : Prop} {a a' : α} (h : GivesUnless x fails a)
    (hfails : fails ↔ fails') (ha : a = a') : GivesUnless x fails' a' := by
  rw [← propext hfails, ← ha]
  exact h

theorem bind {x : ExceptT ε Id α} {f : α → ExceptT ε Id β} {fails fails' : Prop} {a : α} {b : β}
    (hx : GivesUnless x fails a) (hf : GivesUnless (f a) fails' b) :
    GivesUnless (x >>= f) (fails ∨ fails') b where
  gives := by
    intro h
    rw [not_or] at h
    rw [run_bind_of_ok (hx.gives h.1)]
    exact hf.gives h.2
  errs := by
    intro h
    by_cases hfails : fails
    · rcases hx.errs hfails with ⟨e, he⟩
      exact ⟨e, run_bind_of_error he⟩
    · rw [run_bind_of_ok (hx.gives hfails)]
      exact hf.errs (h.resolve_left hfails)

/-- What is made of a result adds no failure. -/
theorem andThen {x : ExceptT ε Id α} {fails : Prop} {a : α} (h : GivesUnless x fails a)
    (f : α → β) : GivesUnless (do return f (← x)) fails (f a) := by
  have hpure : GivesUnless (Pure.pure (f a) : ExceptT ε Id β) False (f a) := GivesUnless.pure (f a)
  refine (h.bind hpure).congr ?_ rfl
  rw [or_false]

/-- A list of computations fails if one of them does. -/
theorem mapM {f : α → ExceptT ε Id β} {fails : α → Prop} {g : α → β} {l : List α}
    (h : ∀ a ∈ l, GivesUnless (f a) (fails a) (g a)) :
    GivesUnless (l.mapM f) (∃ a ∈ l, fails a) (l.map g) := by
  induction l with
  | nil =>
      refine (GivesUnless.pure []).congr ?_ rfl
      simp only [List.not_mem_nil, false_and, exists_false]
  | cons a rest ih =>
      rw [List.mapM_cons]
      have hrest := ih fun b hb => h b (List.mem_cons_of_mem a hb)
      refine ((h a List.mem_cons_self).bind (hrest.andThen (g a :: ·))).congr ?_ rfl
      simp only [List.mem_cons, exists_eq_or_imp]

/-- A loop that collects what its rounds give fails if one of the rounds does. -/
theorem collect {f : α → ExceptT ε Id (List β)} {fails : α → Prop} {g : α → List β} {l : List α}
    (h : ∀ a ∈ l, GivesUnless (f a) (fails a) (g a)) :
    GivesUnless (do return (← l.mapM f).flatten) (∃ a ∈ l, fails a) (l.flatMap g) := by
  rw [List.flatMap_def]
  exact (mapM h).andThen List.flatten

/-- It gives a result exactly if nothing fails. -/
theorem exists_run_eq_ok_iff {x : ExceptT ε Id α} {fails : Prop} {a : α}
    (h : GivesUnless x fails a) : (∃ b, x.run = .ok b) ↔ ¬ fails := by
  constructor
  · intro hok hfails
    rcases hok with ⟨b, hb⟩
    rcases h.errs hfails with ⟨e, he⟩
    rw [hb] at he
    cases he
  · intro hfails
    exact ⟨a, h.gives hfails⟩

theorem eq_of_run_eq_ok {x : ExceptT ε Id α} {fails : Prop} {a b : α} (h : GivesUnless x fails a)
    (hb : x.run = .ok b) : b = a := by
  have hfails : ¬ fails := h.exists_run_eq_ok_iff.mp ⟨b, hb⟩
  have ha := h.gives hfails
  rw [hb] at ha
  cases ha
  rfl

end GivesUnless

/-- Two computations go the same way: both fail, with errors that belong together, or both give
    results that do. -/
inductive Tracks {ε ε' α β : Type} (E : ε → ε' → Prop) (R : α → β → Prop) (x : ExceptT ε Id α)
    (y : ExceptT ε' Id β) : Prop where
  | error {e : ε} {e' : ε'} (hx : x.run = .error e) (hy : y.run = .error e') (h : E e e') :
      Tracks E R x y
  | ok {a : α} {b : β} (hx : x.run = .ok a) (hy : y.run = .ok b) (h : R a b) : Tracks E R x y

namespace Tracks

variable {ε ε' α α' β β' γ : Type} {E : ε → ε' → Prop} {R : α → α' → Prop} {S : β → β' → Prop}

theorem pure {a : α} {a' : α'} (h : R a a') :
    Tracks E R (Pure.pure a : ExceptT ε Id α) (Pure.pure a' : ExceptT ε' Id α') :=
  .ok rfl rfl h

theorem bind {x : ExceptT ε Id α} {y : ExceptT ε' Id α'} {f : α → ExceptT ε Id β}
    {g : α' → ExceptT ε' Id β'} (h : Tracks E R x y)
    (hrest : ∀ a a', x.run = .ok a → R a a' → Tracks E S (f a) (g a')) :
    Tracks E S (x >>= f) (y >>= g) := by
  cases h with
  | error hx hy he => exact .error (run_bind_of_error hx) (run_bind_of_error hy) he
  | @ok a a' hx hy ha =>
      rw [ExceptT.ext (run_bind_of_ok hx), ExceptT.ext (run_bind_of_ok hy)]
      exact hrest a a' hx ha

/-- The same list, gone through in two ways. -/
theorem mapM {l : List γ} {f : γ → ExceptT ε Id α} {g : γ → ExceptT ε' Id α'}
    (h : ∀ c ∈ l, Tracks E R (f c) (g c)) : Tracks E (List.Forall₂ R) (l.mapM f) (l.mapM g) := by
  induction l with
  | nil => exact .pure .nil
  | cons c rest ih =>
      rw [List.mapM_cons, List.mapM_cons]
      have hrest := ih fun c' hc' => h c' (List.mem_cons_of_mem c hc')
      exact (h c List.mem_cons_self).bind fun a a' _ ha => hrest.bind fun as as' _ has =>
        .pure (.cons ha has)

end Tracks

/-- The second computation is the first one, unless that fails with an error which `p`
    excuses. -/
inductive SameUnless {ε α : Type} (p : ε → Prop) (x y : ExceptT ε Id α) : Prop where
  | same (h : y = x) : SameUnless p x y
  | excused {e : ε} (hx : x.run = .error e) (h : p e) : SameUnless p x y

namespace SameUnless

variable {ε α β γ : Type} {p : ε → Prop}

theorem refl (x : ExceptT ε Id α) : SameUnless p x x :=
  .same rfl

theorem run_eq {x y : ExceptT ε Id α} (h : SameUnless p x y) (hx : ∀ e, x.run = .error e → ¬ p e) :
    y.run = x.run := by
  cases h with
  | same h => rw [h]
  | excused he hp => exact absurd hp (hx _ he)

theorem bind {x y : ExceptT ε Id α} {f g : α → ExceptT ε Id β} (h : SameUnless p x y)
    (hrest : ∀ a, SameUnless p (f a) (g a)) : SameUnless p (x >>= f) (y >>= g) := by
  cases h with
  | excused hx he => exact .excused (run_bind_of_error hx) he
  | same h =>
      subst h
      cases hy : y.run with
      | error e =>
          refine .same (ExceptT.ext ?_)
          rw [run_bind_of_error hy, run_bind_of_error hy]
      | ok a =>
          rw [ExceptT.ext (run_bind_of_ok hy), ExceptT.ext (run_bind_of_ok hy)]
          exact hrest a

/-- What comes before is the same. -/
theorem after (x : ExceptT ε Id α) {f g : α → ExceptT ε Id β}
    (hrest : ∀ a, SameUnless p (f a) (g a)) : SameUnless p (x >>= f) (x >>= g) :=
  (refl x).bind hrest

/-- What comes after is the same. -/
theorem before {x y : ExceptT ε Id α} (h : SameUnless p x y) (f : α → ExceptT ε Id β) :
    SameUnless p (x >>= f) (y >>= f) :=
  h.bind fun a => refl (f a)

theorem ite {c : Prop} [Decidable c] {x x' y y' : ExceptT ε Id α} (hx : SameUnless p x x')
    (hy : SameUnless p y y') : SameUnless p (if c then x else y) (if c then x' else y') := by
  by_cases hc : c
  · rw [if_pos hc, if_pos hc]
    exact hx
  · rw [if_neg hc, if_neg hc]
    exact hy

theorem mapM {f g : γ → ExceptT ε Id α} (h : ∀ c, SameUnless p (f c) (g c)) (l : List γ) :
    SameUnless p (l.mapM f) (l.mapM g) := by
  induction l with
  | nil => exact refl _
  | cons c rest ih =>
      rw [List.mapM_cons, List.mapM_cons]
      exact (h c).bind fun _ => ih.before _

theorem foldlM {f g : α → γ → ExceptT ε Id α} (h : ∀ a c, SameUnless p (f a c) (g a c))
    (l : List γ) (a : α) : SameUnless p (l.foldlM f a) (l.foldlM g a) := by
  induction l generalizing a with
  | nil => exact refl _
  | cons c rest ih =>
      rw [List.foldlM_cons, List.foldlM_cons]
      exact (h a c).bind ih

end SameUnless

/-- Whatever error the computation fails with, it has the property `p`. -/
def FailsOnly {ε α : Type} (p : ε → Prop) (x : ExceptT ε Id α) : Prop :=
  ∀ e, x.run = .error e → p e

namespace FailsOnly

variable {ε α β γ : Type} {p : ε → Prop}

theorem pure (a : α) : FailsOnly p (Pure.pure a : ExceptT ε Id α) := by
  intro e h
  cases h

theorem bind {x : ExceptT ε Id α} {f : α → ExceptT ε Id β} (hx : FailsOnly p x)
    (hf : ∀ a, FailsOnly p (f a)) : FailsOnly p (x >>= f) := by
  intro e h
  rcases run_bind_eq_error_iff.mp h with h | ⟨a, -, h⟩
  · exact hx e h
  · exact hf a e h

theorem ite {c : Prop} [Decidable c] {x y : ExceptT ε Id α} (hx : c → FailsOnly p x)
    (hy : ¬ c → FailsOnly p y) : FailsOnly p (if c then x else y) := by
  by_cases hc : c
  · rw [if_pos hc]
    exact hx hc
  · rw [if_neg hc]
    exact hy hc

theorem mapM {f : γ → ExceptT ε Id α} {l : List γ} (h : ∀ c ∈ l, FailsOnly p (f c)) :
    FailsOnly p (l.mapM f) := by
  induction l with
  | nil => exact pure []
  | cons c rest ih =>
      rw [List.mapM_cons]
      have hrest := ih fun c' hc' => h c' (List.mem_cons_of_mem c hc')
      exact (h c List.mem_cons_self).bind fun a => hrest.bind fun as => pure (a :: as)

theorem foldlM {f : α → γ → ExceptT ε Id α} (h : ∀ a c, FailsOnly p (f a c)) (l : List γ)
    (a : α) : FailsOnly p (l.foldlM f a) := by
  induction l generalizing a with
  | nil => exact pure a
  | cons c rest ih =>
      rw [List.foldlM_cons]
      exact (h a c).bind ih

end FailsOnly

end Interleaving
