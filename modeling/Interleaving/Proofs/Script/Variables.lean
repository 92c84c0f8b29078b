import Interleaving.Proofs.Computation
import Interleaving.Proofs.Environment
import Interleaving.Script.Parser

/-!
# The Variables of a Script

What an expression says depends on the variables that occur in it and on no others, and
an action changes the variables it assigns and no others. Two actions are independent if
neither assigns a variable that occurs in the other. Then it makes no difference to one of
them whether the other was taken before, and the two orders end in the same environment.

The argument looks at one name at a time. A name that the first action assigns has the
value the first action gives it, whether or not the second one comes before, and the same
the other way round; every other name keeps its value.

## Main definitions

* `Expr.names`, `Statement.names`: The variables that occur.
* `Statement.targets`: The variables that are assigned.
* `Statement.Spares`: Statements assign nothing that occurs in others.

## Theorems

* `Expr.eval_congr`, `Expr.holds_congr`: Expressions depend on their variables.
* `Statement.get?_of_run`: Actions leave other variables alone.
* `Statement.exists_run_of_agree`: Actions depend on their variables.
* `Statement.run_comm`: Independent actions may change places.
-/

namespace Interleaving

namespace Script

open Environment

/-- The variables that occur in an expression. -/
def Expr.names : Expr → List String
  | literal _ => []
  | var name => [name]
  | unary _ operand => operand.names
  | binary _ left right => left.names ++ right.names

namespace Statement

/-- The variable that a statement assigns. -/
def target? : Statement → Option String
  | skip => none
  | assign target _ => some target

/-- The variables that occur in a statement. -/
def names : Statement → List String
  | skip => []
  | assign target value => target :: value.names

/-- The variables that statements assign. -/
def targets (ss : List Statement) : List String :=
  ss.filterMap target?

/-- The first statements assign nothing that occurs in the others. -/
def Spares (ss ts : List Statement) : Prop :=
  ∀ name ∈ targets ss, name ∉ ts.flatMap names

end Statement

variable {env env' : Environment}

/-- The value of an expression depends on its variables and on no others. -/
theorem Expr.eval_congr {e : Expr} (h : Agree (· ∈ e.names) env env') :
    e.eval env = e.eval env' := by
  induction e with
  | literal value => rfl
  | var name => rw [eval, eval, h name List.mem_cons_self]
  | unary op operand ih => cases op <;> rw [eval, eval, ih h]
  | binary op left right ihleft ihright =>
      have hleft := ihleft fun name hname => h name (List.mem_append_left _ hname)
      have hright := ihright fun name hname => h name (List.mem_append_right _ hname)
      cases op <;> rw [eval, eval, hleft, hright]

theorem Expr.holds_congr {e : Expr} (h : Agree (· ∈ e.names) env env') :
    e.holds env = e.holds env' := by
  rw [holds, holds, eval_congr h]

namespace Statement

variable {s : Statement} {ss ts : List Statement} {out : Environment} {name : String}

theorem target?_mem_names (h : s.target? = some name) : name ∈ s.names := by
  cases s with
  | skip => cases h
  | assign target value =>
      cases h
      exact List.mem_cons_self

theorem mem_targets_iff : name ∈ targets ss ↔ ∃ s ∈ ss, s.target? = some name :=
  List.mem_filterMap

theorem run_cons_eq_ok_iff {s : Statement} : run (s :: ss) env = .ok out ↔
    ∃ mid, step env s = .ok mid ∧ run ss mid = .ok out := by
  rw [run, List.foldlM_cons, bind_eq_ok_iff]
  rfl

/-- A statement leaves the other variables alone. -/
theorem get?_of_step (h : step env s = .ok out) (hname : s.target? ≠ some name) :
    out.get? name = env.get? name := by
  cases s with
  | skip =>
      cases h
      rfl
  | assign target value =>
      rcases bind_eq_ok_iff.mp h with ⟨v, -, hv⟩
      rw [pure_eq_ok_iff] at hv
      have hne : name ≠ target := fun heq => hname (congrArg some heq.symm)
      rw [← hv, get?_insert, if_neg hne]

/-- So does a sequence of statements. -/
theorem get?_of_run (h : run ss env = .ok out) (hname : name ∉ targets ss) :
    out.get? name = env.get? name := by
  induction ss generalizing env with
  | nil =>
      cases h
      rfl
  | cons s rest ih =>
      rcases run_cons_eq_ok_iff.mp h with ⟨mid, hstep, hrest⟩
      simp only [mem_targets_iff, List.mem_cons, exists_eq_or_imp, not_or] at hname
      rw [ih hrest (mt mem_targets_iff.mp hname.2), get?_of_step hstep hname.1]

/-- In an environment that agrees on its variables a statement does the same. -/
theorem exists_step_of_agree {p : String → Prop} (hp : ∀ name ∈ s.names, p name)
    (h : Agree p env env') (hstep : step env s = .ok out) :
    ∃ out', step env' s = .ok out' ∧ Agree p out out' := by
  cases s with
  | skip =>
      cases hstep
      exact ⟨env', rfl, h⟩
  | assign target value =>
      have hvalue : value.eval env = value.eval env' :=
        Expr.eval_congr fun name hname => h name (hp name (List.mem_cons_of_mem _ hname))
      rcases bind_eq_ok_iff.mp hstep with ⟨v, hv, hout⟩
      rw [pure_eq_ok_iff] at hout
      rw [hvalue] at hv
      refine ⟨env'.insert target v, bind_eq_ok_iff.mpr ⟨v, hv, rfl⟩, ?_⟩
      rw [← hout]
      exact h.insert target v

/-- So does a sequence of statements. -/
theorem exists_run_of_agree {p : String → Prop} (hp : ∀ s ∈ ss, ∀ name ∈ s.names, p name)
    (h : Agree p env env') (hrun : run ss env = .ok out) :
    ∃ out', run ss env' = .ok out' ∧ Agree p out out' := by
  induction ss generalizing env env' with
  | nil =>
      cases hrun
      exact ⟨env', rfl, h⟩
  | cons s rest ih =>
      rcases run_cons_eq_ok_iff.mp hrun with ⟨mid, hstep, hrest⟩
      rcases exists_step_of_agree (hp s List.mem_cons_self) h hstep with ⟨mid', hstep', hmid⟩
      rcases ih (fun s hs => hp s (List.mem_cons_of_mem _ hs)) hmid hrest with ⟨out', hrest', hout⟩
      exact ⟨out', run_cons_eq_ok_iff.mpr ⟨mid', hstep', hrest'⟩, hout⟩

theorem mem_names_of_mem_targets (h : name ∈ targets ss) : name ∈ ss.flatMap names := by
  rcases mem_targets_iff.mp h with ⟨s, hs, hname⟩
  exact List.mem_flatMap.mpr ⟨s, hs, target?_mem_names hname⟩

/-- After statements that spare them, statements do the same to their variables. -/
theorem exists_run_of_spares (h : Spares ss ts) (hs : run ss env = .ok env')
    (ht : run ts env = .ok out) :
    ∃ out', run ts env' = .ok out' ∧ Agree (· ∈ ts.flatMap names) out out' := by
  refine exists_run_of_agree ?_ ?_ ht
  · intro t ht name hname
    exact List.mem_flatMap.mpr ⟨t, ht, hname⟩
  · intro name hname
    exact (get?_of_run hs fun htarget => h name htarget hname).symm

/-- Statements that spare each other may change places. -/
theorem run_comm (hst : Spares ss ts) (hts : Spares ts ss) {first second : Environment}
    (hs : run ss env = .ok first) (ht : run ts env = .ok second) :
    ∃ last, run ts first = .ok last ∧ run ss second = .ok last := by
  rcases exists_run_of_spares hst hs ht with ⟨last, hlast, hsecond⟩
  rcases exists_run_of_spares hts ht hs with ⟨last', hlast', hfirst⟩
  have heq : last' = last := by
    refine ext_get? ?_
    intro name
    by_cases hnames : name ∈ targets ts
    · -- Both ends have the value that the second sequence gave it.
      have hoccurs := mem_names_of_mem_targets hnames
      rw [← hsecond name hoccurs,
        get?_of_run hlast' fun htarget => hst name htarget hoccurs]
    · rw [get?_of_run hlast hnames]
      by_cases htarget : name ∈ targets ss
      · exact (hfirst name (mem_names_of_mem_targets htarget)).symm
      · -- Nobody assigns the name.
        rw [get?_of_run hlast' htarget, get?_of_run ht hnames, get?_of_run hs htarget]
  rw [heq] at hlast'
  exact ⟨last, hlast, hlast'⟩

end Statement

end Script

end Interleaving
