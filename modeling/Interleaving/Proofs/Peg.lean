import Interleaving.Peg
import Mathlib.Data.Nat.Init

/-!
# How Parsing Expressions Read

What each parsing expression takes and where it fails, in terms of its parts. There is a
third possibility, that reading does not come to an end, and for some grammars it happens.
Then nothing is taken and nothing fails.

It does not happen if the rules can be ranked. A rule may call rules of a lower rank, and
behind something that takes at least one character it may call any rule; and what is
repeated takes at least one character every time. Whether a ranking is of this kind can be
checked rule by rule. Reading then ends because it either goes on with less text, or with the
same text and a lower rank, or with a part of the same expression.

## Main definitions

* `Peg.Grammar.Takes`, `Peg.Grammar.Fails`: The two outcomes.
* `Peg.Ranking`: A rank for every rule, and whether it takes something.
* `Peg.Ranking.Ranks`: The ranking goes with the grammar.

## Theorems

* `Peg.Grammar.run_bind_eq_some_iff`: What comes after a part.
* `Peg.Grammar.takes_cat_iff`, `Peg.Grammar.takes_choice_iff`, ...: One equivalence for each
  expression and outcome.
* `Peg.Ranking.Ranks.exists_outcome`: A grammar that is ranked reads every text to an end.
* `Peg.Ranking.Ranks.takes_many_induction`: Induction along the rounds of a repetition.
-/

namespace Interleaving

namespace Peg

variable {R : Type}

namespace Grammar

variable {g : Grammar R} {size : Nat} {m : Bool} {a b : Exp R} {xs rest : List Char}
  {trees : List (ParseTree R)}

/-- The expression takes what stands before `rest`. -/
abbrev Takes (g : Grammar R) (size : Nat) (atomic : Bool) (e : Exp R) (xs : List Char)
    (trees : List (ParseTree R)) (rest : List Char) : Prop :=
  g.run size atomic e xs = some (.takes trees rest)

/-- The expression fails at the front of `xs`. -/
abbrev Fails (g : Grammar R) (size : Nat) (atomic : Bool) (e : Exp R) (xs : List Char) : Prop :=
  g.run size atomic e xs = some .fails

section Outcomes

theorem takes_text_iff {s : String} :
    g.Takes size m (.text s) xs trees rest ↔ trees = [] ∧ xs = s.toList ++ rest := by
  rw [Takes, run, Reading.step]
  by_cases hs : s.toList <+: xs
  · rcases hs with ⟨rest', rfl⟩
    rw [if_pos (List.isPrefixOf_iff_prefix.mpr (List.prefix_append _ _)), List.drop_left,
      List.append_cancel_left_eq, Option.some.injEq, Outcome.takes.injEq, eq_comm]
  · have hnot : xs ≠ s.toList ++ rest := by
      rintro rfl
      exact hs (List.prefix_append _ rest)
    simp [hs, hnot]

theorem fails_text_iff {s : String} : g.Fails size m (.text s) xs ↔ ¬ s.toList <+: xs := by
  rw [Fails, run, Reading.step]
  by_cases hs : s.toList <+: xs <;> simp [hs]

theorem takes_char_iff {among : Char → Bool} :
    g.Takes size m (.char among) xs trees rest ↔
      trees = [] ∧ ∃ c, among c = true ∧ xs = c :: rest := by
  rw [Takes, run, Reading.step]
  cases xs with
  | nil => simp
  | cons c xs =>
      by_cases hc : among c = true
      · simp only [List.head?_cons, Option.any_some, hc, if_true]
        grind
      · simp only [List.head?_cons, Option.any_some, hc]
        grind

theorem fails_char_iff {among : Char → Bool} :
    g.Fails size m (.char among) xs ↔ ∀ c rest, xs = c :: rest → among c = false := by
  rw [Fails, run, Reading.step]
  cases xs with
  | nil => simp
  | cons c xs => by_cases hc : among c = true <;> simp [hc]

theorem takes_start_iff :
    g.Takes size m .start xs trees rest ↔ trees = [] ∧ rest = xs ∧ xs.length = size := by
  rw [Takes, run, Reading.step]
  by_cases hsize : xs.length = size <;> simp [hsize, eq_comm]

theorem fails_start_iff : g.Fails size m .start xs ↔ xs.length ≠ size := by
  rw [Fails, run, Reading.step]
  by_cases hsize : xs.length = size <;> simp [hsize]

theorem takes_finish_iff :
    g.Takes size m .finish xs trees rest ↔ trees = [] ∧ rest = [] ∧ xs = [] := by
  rw [Takes, run, Reading.step]
  cases xs <;> simp [eq_comm]

theorem fails_finish_iff : g.Fails size m .finish xs ↔ xs ≠ [] := by
  rw [Fails, run, Reading.step]
  cases xs <;> simp

/-- What comes after a part goes on from one of its two outcomes. -/
theorem run_bind_eq_some_iff {f : Outcome R → Option (Outcome R)} {outcome : Outcome R} :
    (g.run size m a xs >>= f) = some outcome ↔
      (g.Fails size m a xs ∧ f .fails = some outcome) ∨
        ∃ ts mid, g.Takes size m a xs ts mid ∧ f (.takes ts mid) = some outcome := by
  rw [Option.bind_eq_bind, Option.bind_eq_some_iff]
  constructor
  · intro h
    rcases h with ⟨first, ha, h⟩
    cases first with
    | fails => exact Or.inl ⟨ha, h⟩
    | takes ts mid => exact Or.inr ⟨ts, mid, ha, h⟩
  · intro h
    rcases h with ⟨ha, h⟩ | ⟨ts, mid, ha, h⟩
    · exact ⟨_, ha, h⟩
    · exact ⟨_, ha, h⟩

theorem takes_rule_iff {r : R} : g.Takes size m (.rule r) xs trees rest ↔
    ∃ inner, g.Takes size (m || (g.define r).mode == .atomic) (g.define r).body xs inner rest ∧
      trees = g.wrap m r xs inner rest := by
  rw [Takes, run, Reading.step, run_bind_eq_some_iff]
  constructor
  · intro h
    rcases h with ⟨-, h⟩ | ⟨inner, mid, hbody, h⟩
    · cases h
    · cases h
      exact ⟨inner, hbody, rfl⟩
  · intro h
    rcases h with ⟨inner, hbody, rfl⟩
    exact Or.inr ⟨inner, rest, hbody, rfl⟩

theorem fails_rule_iff {r : R} : g.Fails size m (.rule r) xs ↔
    g.Fails size (m || (g.define r).mode == .atomic) (g.define r).body xs := by
  rw [Fails, run, Reading.step, run_bind_eq_some_iff]
  constructor
  · intro h
    rcases h with ⟨hbody, -⟩ | ⟨inner, mid, -, h⟩
    · exact hbody
    · cases h
  · intro hbody
    exact Or.inl ⟨hbody, rfl⟩

theorem wrap_atomic {r : R} {inner : List (ParseTree R)} : g.wrap true r xs inner rest = inner := by
  rw [wrap, Bool.true_or, if_pos rfl]

theorem wrap_silent {r : R} {inner : List (ParseTree R)} (hr : (g.define r).mode = .silent) :
    g.wrap m r xs inner rest = inner := by
  rw [wrap, hr, beq_self_eq_true, Bool.or_true, if_pos rfl]

theorem wrap_of_ne_silent {r : R} {inner : List (ParseTree R)}
    (hr : (g.define r).mode ≠ .silent) : g.wrap false r xs inner rest =
      [.node r (String.ofList (xs.take (xs.length - rest.length))) inner] := by
  rw [wrap, Bool.false_or, if_neg]
  rwa [beq_iff_eq]

theorem wrap_append {r : R} {inner : List (ParseTree R)} (hr : (g.define r).mode ≠ .silent)
    (l rest : List Char) : g.wrap false r (l ++ rest) inner rest =
      [.node r (String.ofList l) inner] := by
  rw [wrap_of_ne_silent hr, List.length_append, Nat.add_sub_cancel, List.take_left]

theorem takes_cat_iff : g.Takes size m (.cat a b) xs trees rest ↔
    ∃ ts mid us, g.Takes size m a xs ts mid ∧ g.Takes size m b mid us rest ∧
      trees = ts ++ us := by
  rw [Takes, run, Reading.step, run_bind_eq_some_iff]
  constructor
  · intro h
    rcases h with ⟨-, h⟩ | ⟨ts, mid, ha, h⟩
    · cases h
    · rcases run_bind_eq_some_iff.mp h with ⟨-, h⟩ | ⟨us, rest, hb, h⟩
      · cases h
      · cases h
        exact ⟨ts, mid, us, ha, hb, rfl⟩
  · intro h
    rcases h with ⟨ts, mid, us, ha, hb, rfl⟩
    exact Or.inr ⟨ts, mid, ha, run_bind_eq_some_iff.mpr (Or.inr ⟨us, rest, hb, rfl⟩)⟩

theorem fails_cat_iff : g.Fails size m (.cat a b) xs ↔
    g.Fails size m a xs ∨ ∃ ts mid, g.Takes size m a xs ts mid ∧ g.Fails size m b mid := by
  rw [Fails, run, Reading.step, run_bind_eq_some_iff]
  constructor
  · intro h
    rcases h with ⟨ha, -⟩ | ⟨ts, mid, ha, h⟩
    · exact Or.inl ha
    · rcases run_bind_eq_some_iff.mp h with ⟨hb, -⟩ | ⟨us, rest, -, h⟩
      · exact Or.inr ⟨ts, mid, ha, hb⟩
      · cases h
  · intro h
    rcases h with ha | ⟨ts, mid, ha, hb⟩
    · exact Or.inl ⟨ha, rfl⟩
    · exact Or.inr ⟨ts, mid, ha, run_bind_eq_some_iff.mpr (Or.inl ⟨hb, rfl⟩)⟩

theorem takes_choice_iff : g.Takes size m (.choice a b) xs trees rest ↔
    g.Takes size m a xs trees rest ∨ g.Fails size m a xs ∧ g.Takes size m b xs trees rest := by
  rw [Takes, run, Reading.step, run_bind_eq_some_iff]
  constructor
  · intro h
    rcases h with ⟨ha, hb⟩ | ⟨ts, mid, ha, h⟩
    · exact Or.inr ⟨ha, hb⟩
    · cases h
      exact Or.inl ha
  · intro h
    rcases h with ha | ⟨ha, hb⟩
    · exact Or.inr ⟨trees, rest, ha, rfl⟩
    · exact Or.inl ⟨ha, hb⟩

theorem fails_choice_iff : g.Fails size m (.choice a b) xs ↔
    g.Fails size m a xs ∧ g.Fails size m b xs := by
  rw [Fails, run, Reading.step, run_bind_eq_some_iff]
  constructor
  · intro h
    rcases h with ⟨ha, hb⟩ | ⟨ts, mid, -, h⟩
    · exact ⟨ha, hb⟩
    · cases h
  · intro h
    exact Or.inl h

theorem takes_many_iff : g.Takes size m (.many a) xs trees rest ↔
    (g.Fails size m a xs ∧ trees = [] ∧ rest = xs) ∨
      ∃ ts mid us, g.Takes size m a xs ts mid ∧ g.Takes size m (.many a) mid us rest ∧
        trees = ts ++ us := by
  rw [Takes, run, Reading.step, run_bind_eq_some_iff]
  constructor
  · intro h
    rcases h with ⟨ha, h⟩ | ⟨ts, mid, ha, h⟩
    · cases h
      exact Or.inl ⟨ha, rfl, rfl⟩
    · rcases run_bind_eq_some_iff.mp h with ⟨-, h⟩ | ⟨us, rest, hmany, h⟩
      · cases h
      · cases h
        exact Or.inr ⟨ts, mid, us, ha, hmany, rfl⟩
  · intro h
    rcases h with ⟨ha, rfl, rfl⟩ | ⟨ts, mid, us, ha, hmany, rfl⟩
    · exact Or.inl ⟨ha, rfl⟩
    · exact Or.inr ⟨ts, mid, ha, run_bind_eq_some_iff.mpr (Or.inr ⟨us, rest, hmany, rfl⟩)⟩

theorem fails_many_iff : g.Fails size m (.many a) xs ↔
    ∃ ts mid, g.Takes size m a xs ts mid ∧ g.Fails size m (.many a) mid := by
  rw [Fails, run, Reading.step, run_bind_eq_some_iff]
  constructor
  · intro h
    rcases h with ⟨-, h⟩ | ⟨ts, mid, ha, h⟩
    · cases h
    · rcases run_bind_eq_some_iff.mp h with ⟨hmany, -⟩ | ⟨us, rest, -, h⟩
      · exact ⟨ts, mid, ha, hmany⟩
      · cases h
  · intro h
    rcases h with ⟨ts, mid, ha, hmany⟩
    exact Or.inr ⟨ts, mid, ha, run_bind_eq_some_iff.mpr (Or.inl ⟨hmany, rfl⟩)⟩

theorem takes_not_iff :
    g.Takes size m (.not a) xs trees rest ↔ trees = [] ∧ rest = xs ∧ g.Fails size m a xs := by
  rw [Takes, run, Reading.step, run_bind_eq_some_iff]
  constructor
  · intro h
    rcases h with ⟨ha, h⟩ | ⟨ts, mid, -, h⟩
    · cases h
      exact ⟨rfl, rfl, ha⟩
    · cases h
  · intro h
    rcases h with ⟨rfl, rfl, ha⟩
    exact Or.inl ⟨ha, rfl⟩

theorem fails_not_iff :
    g.Fails size m (.not a) xs ↔ ∃ ts rest, g.Takes size m a xs ts rest := by
  rw [Fails, run, Reading.step, run_bind_eq_some_iff]
  constructor
  · intro h
    rcases h with ⟨-, h⟩ | ⟨ts, mid, ha, -⟩
    · cases h
    · exact ⟨ts, mid, ha⟩
  · intro h
    rcases h with ⟨ts, mid, ha⟩
    exact Or.inr ⟨ts, mid, ha, rfl⟩

theorem takes_space_atomic_iff :
    g.Takes size true .space xs trees rest ↔ trees = [] ∧ rest = xs := by
  rw [Takes, run, Reading.step]
  simp [eq_comm]

theorem run_space :
    g.run size false .space xs = g.run size true (.many (.rule g.whitespace)) xs := by
  rw [run, Reading.step]
  simp

theorem takes_opt_iff : g.Takes size m a.opt xs trees rest ↔
    g.Takes size m a xs trees rest ∨ g.Fails size m a xs ∧ trees = [] ∧ rest = xs := by
  rw [Exp.opt, takes_choice_iff, takes_text_iff]
  simp [eq_comm]

theorem takes_seq_iff : g.Takes size m (a.seq b) xs trees rest ↔
    ∃ ts mid sp mid' us, g.Takes size m a xs ts mid ∧ g.Takes size m .space mid sp mid' ∧
      g.Takes size m b mid' us rest ∧ trees = ts ++ (sp ++ us) := by
  rw [Exp.seq, takes_cat_iff]
  simp only [takes_cat_iff]
  grind

/-- Inside an atomic rule there is no space between two parts. -/
theorem takes_seq_atomic_iff : g.Takes size true (a.seq b) xs trees rest ↔
    ∃ ts mid us, g.Takes size true a xs ts mid ∧ g.Takes size true b mid us rest ∧
      trees = ts ++ us := by
  rw [takes_seq_iff]
  constructor
  · intro h
    rcases h with ⟨ts, mid, sp, mid', us, hts, hsp, hus, rfl⟩
    rcases takes_space_atomic_iff.mp hsp with ⟨rfl, rfl⟩
    exact ⟨ts, mid', us, hts, hus, rfl⟩
  · intro h
    rcases h with ⟨ts, mid, us, hts, hus, rfl⟩
    exact ⟨ts, mid, [], mid, us, hts, takes_space_atomic_iff.mpr ⟨rfl, rfl⟩, hus, rfl⟩

/-- The first of some texts that `xs` begins with. -/
def firstOf? (ss : List String) (xs : List Char) : Option String :=
  ss.find? fun s => s.toList.isPrefixOf xs

theorem of_firstOf?_eq_some {ss : List String} {s : String} (h : firstOf? ss xs = some s) :
    s ∈ ss ∧ s.toList <+: xs := by
  have hfound := List.find?_some (p := fun s : String => s.toList.isPrefixOf xs) h
  exact ⟨List.mem_of_find?_eq_some h, List.isPrefixOf_iff_prefix.mp hfound⟩

theorem firstOf?_eq_none_iff {ss : List String} :
    firstOf? ss xs = none ↔ ∀ s ∈ ss, ¬ s.toList <+: xs := by
  simp [firstOf?]

theorem takes_oneOf_iff {ss : List String} : g.Takes size m (.oneOf ss) xs trees rest ↔
    trees = [] ∧ ∃ s, firstOf? ss xs = some s ∧ xs = s.toList ++ rest := by
  induction ss with
  | nil => simp [Exp.oneOf, firstOf?, takes_not_iff, fails_text_iff]
  | cons s ss ih =>
      -- The last text stands alone, but a choice that fails behind it is the same.
      have hcons : g.Takes size m (.oneOf (s :: ss)) xs trees rest ↔
          g.Takes size m (.text s) xs trees rest ∨
            g.Fails size m (.text s) xs ∧ g.Takes size m (.oneOf ss) xs trees rest := by
        cases ss with
        | nil => simp [Exp.oneOf, takes_not_iff, fails_text_iff]
        | cons t ss => rw [Exp.oneOf, takes_choice_iff]; simp
      rw [hcons, ih, takes_text_iff, fails_text_iff]
      by_cases hs : s.toList <+: xs
      · have hfirst : firstOf? (s :: ss) xs = some s :=
          List.find?_cons_of_pos (List.isPrefixOf_iff_prefix.mpr hs)
        simp [hs, hfirst]
      · have hnot : xs ≠ s.toList ++ rest := by
          rintro rfl
          exact hs (List.prefix_append _ rest)
        have hfirst : firstOf? (s :: ss) xs = firstOf? ss xs :=
          List.find?_cons_of_neg (by rwa [List.isPrefixOf_iff_prefix])
        simp [hs, hnot, hfirst]

/-- A repetition takes nothing, or a first round and then the others. -/
theorem cases_of_takes_star (h : g.Takes size m a.star xs trees rest) :
    (trees = [] ∧ rest = xs) ∨ ∃ ts mid us, g.Takes size m a xs ts mid ∧
      g.Takes size m (.many (.cat .space a)) mid us rest ∧ trees = ts ++ us := by
  rcases takes_opt_iff.mp h with hsome | ⟨-, hnone⟩
  · exact Or.inr (takes_cat_iff.mp hsome)
  · exact Or.inl hnone

/-- Where no space stands, the first round is like the others. -/
theorem takes_star_of_many (hspace : g.Takes size m .space xs [] xs)
    (h : g.Takes size m (.many (.cat .space a)) xs trees rest) :
    g.Takes size m a.star xs trees rest := by
  refine takes_opt_iff.mpr ?_
  rcases takes_many_iff.mp h with ⟨hfails, hnone⟩ | ⟨ts, mid, us, hts, hus, rfl⟩
  · right
    refine ⟨fails_cat_iff.mpr (Or.inl ?_), hnone⟩
    rcases fails_cat_iff.mp hfails with hfails | ⟨ts, mid, hts, hfails⟩
    · rw [Fails, hspace] at hfails
      cases hfails
    · rw [Takes, hspace] at hts
      cases hts
      exact hfails
  · left
    rcases takes_cat_iff.mp hts with ⟨sp, mid', ts, hsp, hts, rfl⟩
    rw [Takes, hspace] at hsp
    cases hsp
    exact takes_cat_iff.mpr ⟨ts, mid, us, hts, hus, rfl⟩

end Outcomes

section Classes

/-- The expression takes one character of a class. -/
structure ReadsClass (g : Grammar R) (size : Nat) (atomic : Bool) (a : Exp R)
    (among : Char → Bool) : Prop where
  takes {c : Char} (hc : among c = true) (rest : List Char) :
    g.Takes size atomic a (c :: rest) [] rest
  fails {xs : List Char} (hxs : ∀ c rest, xs = c :: rest → among c = false) :
    g.Fails size atomic a xs

namespace ReadsClass

variable {among : Char → Bool}

theorem takes_iff (h : g.ReadsClass size m a among) :
    g.Takes size m a xs trees rest ↔ trees = [] ∧ ∃ c, among c = true ∧ xs = c :: rest := by
  constructor
  · intro htakes
    cases xs with
    | nil =>
        rw [Takes, h.fails (by simp)] at htakes
        cases htakes
    | cons c xs =>
        cases hc : among c with
        | false =>
            rw [Takes, h.fails (by simp [hc])] at htakes
            cases htakes
        | true =>
            rw [Takes, h.takes hc] at htakes
            cases htakes
            exact ⟨rfl, c, hc, rfl⟩
  · intro hchar
    rcases hchar with ⟨rfl, c, hc, rfl⟩
    exact h.takes hc rest

/-- A class is repeated as long as its characters follow. -/
theorem takes_many (h : g.ReadsClass size m a among) (xs : List Char) :
    g.Takes size m (.many a) xs [] (xs.dropWhile among) := by
  induction xs with
  | nil => exact takes_many_iff.mpr (Or.inl ⟨h.fails (by simp), rfl, rfl⟩)
  | cons c xs ih =>
      cases hc : among c with
      | false =>
          rw [List.dropWhile_cons_of_neg (by simp [hc])]
          exact takes_many_iff.mpr (Or.inl ⟨h.fails (by simp [hc]), rfl, rfl⟩)
      | true =>
          rw [List.dropWhile_cons_of_pos hc]
          exact takes_many_iff.mpr (Or.inr ⟨[], xs, [], h.takes hc xs, ih, rfl⟩)

/-- Inside an atomic rule there is no space before what is repeated. -/
theorem cat_space (h : g.ReadsClass size true a among) :
    g.ReadsClass size true (.cat .space a) among where
  takes hc rest := takes_cat_iff.mpr
    ⟨[], _, [], takes_space_atomic_iff.mpr ⟨rfl, rfl⟩, h.takes hc rest, rfl⟩
  fails hxs := fails_cat_iff.mpr
    (Or.inr ⟨[], _, takes_space_atomic_iff.mpr ⟨rfl, rfl⟩, h.fails hxs⟩)

theorem takes_star_iff (h : g.ReadsClass size true a among) :
    g.Takes size true a.star xs trees rest ↔ trees = [] ∧ rest = xs.dropWhile among := by
  have hstar : g.Takes size true a.star xs [] (xs.dropWhile among) :=
    takes_star_of_many (takes_space_atomic_iff.mpr ⟨rfl, rfl⟩) (h.cat_space.takes_many xs)
  constructor
  · intro htakes
    rw [Takes, hstar] at htakes
    cases htakes
    exact ⟨rfl, rfl⟩
  · intro hdropped
    rcases hdropped with ⟨rfl, rfl⟩
    exact hstar

end ReadsClass

end Classes

end Grammar

/-- A rank for every rule, and whether the rule takes at least one character. -/
structure Ranking (R : Type) where
  rank : R → Nat
  consumes : R → Bool
  /-- More than any rank. -/
  bound : Nat

namespace Ranking

/-- What the expression takes is never empty. -/
def advances (k : Ranking R) : Exp R → Bool
  | .text s => !s.toList.isEmpty
  | .char _ => true
  | .start | .finish | .space | .many _ | .not _ => false
  | .rule r => k.consumes r
  | .cat a b => k.advances a || k.advances b
  | .choice a b => k.advances a && k.advances b

/-- The rules that are called before anything is taken rank below `n`, and what is repeated
    takes something. -/
def guards (k : Ranking R) (whitespace : R) (n : Nat) : Exp R → Bool
  | .text _ | .char _ | .start | .finish => true
  | .rule r => k.rank r < n
  | .space => k.rank whitespace < n && k.consumes whitespace
  | .cat a b => k.guards whitespace n a &&
      k.guards whitespace (if k.advances a then k.bound else n) b
  | .choice a b => k.guards whitespace n a && k.guards whitespace n b
  | .many a => k.guards whitespace n a && k.advances a
  | .not a => k.guards whitespace n a

/-- The ranking goes with the grammar. -/
structure Ranks (k : Ranking R) (g : Grammar R) : Prop where
  rank_lt : ∀ r, k.rank r < k.bound
  guards_body : ∀ r, k.guards g.whitespace (k.rank r) (g.define r).body = true
  advances_body : ∀ r, k.consumes r = true → k.advances (g.define r).body = true

end Ranking

namespace Grammar

variable {g : Grammar R} {size : Nat} {m : Bool} {a b : Exp R} {xs : List Char} {p q : Bool}

/-- Reading comes to an end, with less text than before if `advances` says so. -/
def Ends (g : Grammar R) (size : Nat) (atomic : Bool) (e : Exp R) (xs : List Char)
    (advances : Bool) : Prop :=
  g.Fails size atomic e xs ∨
    ∃ trees rest, g.Takes size atomic e xs trees rest ∧ rest.length + advances.toNat ≤ xs.length

namespace Ends

theorem mono (h : g.Ends size m a xs p) (hqp : q = true → p = true) : g.Ends size m a xs q := by
  rcases h with hfails | ⟨trees, rest, htakes, hlength⟩
  · exact Or.inl hfails
  · refine Or.inr ⟨trees, rest, htakes, ?_⟩
    have hle : q.toNat ≤ p.toNat := by
      cases q with
      | false => exact Nat.zero_le _
      | true => exact Nat.le_of_eq (by rw [hqp rfl])
    omega

theorem text (s : String) : g.Ends size m (.text s) xs (!s.toList.isEmpty) := by
  by_cases hs : s.toList <+: xs
  · rcases hs with ⟨rest, rfl⟩
    refine Or.inr ⟨[], rest, takes_text_iff.mpr ⟨rfl, rfl⟩, ?_⟩
    cases s.toList <;> simp
  · exact Or.inl (fails_text_iff.mpr hs)

theorem char (among : Char → Bool) : g.Ends size m (.char among) xs true := by
  cases xs with
  | nil => exact Or.inl (fails_char_iff.mpr (by simp))
  | cons c xs =>
      cases hc : among c with
      | false => exact Or.inl (fails_char_iff.mpr (by simp [hc]))
      | true => exact Or.inr ⟨[], xs, takes_char_iff.mpr ⟨rfl, c, hc, rfl⟩, Nat.le_refl _⟩

theorem start : g.Ends size m .start xs false := by
  by_cases hsize : xs.length = size
  · exact Or.inr ⟨[], xs, takes_start_iff.mpr ⟨rfl, rfl, hsize⟩, Nat.le_refl _⟩
  · exact Or.inl (fails_start_iff.mpr hsize)

theorem finish : g.Ends size m .finish xs false := by
  cases xs with
  | nil => exact Or.inr ⟨[], [], takes_finish_iff.mpr ⟨rfl, rfl, rfl⟩, Nat.le_refl _⟩
  | cons c xs => exact Or.inl (fails_finish_iff.mpr (List.cons_ne_nil c xs))

theorem rule {r : R}
    (h : g.Ends size (m || (g.define r).mode == .atomic) (g.define r).body xs p) :
    g.Ends size m (.rule r) xs p := by
  rcases h with hfails | ⟨trees, rest, htakes, hlength⟩
  · exact Or.inl (fails_rule_iff.mpr hfails)
  · exact Or.inr ⟨_, rest, takes_rule_iff.mpr ⟨trees, htakes, rfl⟩, hlength⟩

theorem cat (ha : g.Ends size m a xs p)
    (hb : ∀ ts mid, g.Takes size m a xs ts mid → mid.length + p.toNat ≤ xs.length →
      g.Ends size m b mid q) : g.Ends size m (.cat a b) xs (p || q) := by
  rcases ha with hfails | ⟨ts, mid, hts, hmid⟩
  · exact Or.inl (fails_cat_iff.mpr (Or.inl hfails))
  · rcases hb ts mid hts hmid with hfails | ⟨us, rest, hus, hrest⟩
    · exact Or.inl (fails_cat_iff.mpr (Or.inr ⟨ts, mid, hts, hfails⟩))
    · refine Or.inr ⟨_, rest, takes_cat_iff.mpr ⟨ts, mid, us, hts, hus, rfl⟩, ?_⟩
      have hor : (p || q).toNat ≤ p.toNat + q.toNat := by
        cases p <;> cases q <;> decide
      omega

theorem choice (ha : g.Ends size m a xs p) (hb : g.Ends size m b xs q) :
    g.Ends size m (.choice a b) xs (p && q) := by
  rcases ha with hfails | ⟨trees, rest, htakes, hlength⟩
  · rcases hb with hfails' | ⟨trees, rest, htakes, hlength⟩
    · exact Or.inl (fails_choice_iff.mpr ⟨hfails, hfails'⟩)
    · refine mono (p := q) (Or.inr ⟨trees, rest, ?_, hlength⟩) (by simp)
      exact takes_choice_iff.mpr (Or.inr ⟨hfails, htakes⟩)
  · refine mono (p := p) (Or.inr ⟨trees, rest, ?_, hlength⟩) (by simp +contextual)
    exact takes_choice_iff.mpr (Or.inl htakes)

/-- The induction is on the length of the text, which every round makes shorter. -/
theorem many (ha : ∀ ys : List Char, ys.length ≤ xs.length → g.Ends size m a ys true) :
    g.Ends size m (.many a) xs false := by
  induction hn : xs.length using Nat.strong_induction_on generalizing xs with
  | _ n ih =>
    subst hn
    rcases ha xs (Nat.le_refl _) with hfails | ⟨ts, mid, hts, hmid⟩
    · exact Or.inr ⟨[], xs, takes_many_iff.mpr (Or.inl ⟨hfails, rfl, rfl⟩), Nat.le_refl _⟩
    · have hlt : mid.length < xs.length := hmid
      have hmany := ih mid.length hlt (fun ys hys => ha ys (by omega)) rfl
      rcases hmany with hfails | ⟨us, rest, hus, hrest⟩
      · exact Or.inl (fails_many_iff.mpr ⟨ts, mid, hts, hfails⟩)
      · refine Or.inr ⟨_, rest, takes_many_iff.mpr (Or.inr ⟨ts, mid, us, hts, hus, rfl⟩), ?_⟩
        simp only [Bool.toNat_false] at hrest ⊢
        omega

theorem space (h : ∀ ys : List Char, ys.length ≤ xs.length →
    g.Ends size true (.rule g.whitespace) ys true) : g.Ends size m .space xs false := by
  cases m with
  | true => exact Or.inr ⟨[], xs, takes_space_atomic_iff.mpr ⟨rfl, rfl⟩, Nat.le_refl _⟩
  | false =>
      simp only [Ends, Fails, Takes, run_space]
      exact many h

theorem not (ha : g.Ends size m a xs p) : g.Ends size m (.not a) xs false := by
  rcases ha with hfails | ⟨ts, mid, hts, -⟩
  · exact Or.inr ⟨[], xs, takes_not_iff.mpr ⟨rfl, rfl, hfails⟩, Nat.le_refl _⟩
  · exact Or.inl (fails_not_iff.mpr ⟨ts, mid, hts⟩)

end Ends

end Grammar

namespace Ranking.Ranks

open Grammar

variable {k : Ranking R} {g : Grammar R}

/-- Reading ends by induction on the length of the text, then on the rank, then on the
    expression. -/
theorem ends (hk : k.Ranks g) (size length level : Nat) (e : Exp R) (m : Bool) (xs : List Char)
    (hlength : xs.length ≤ length) (hguards : k.guards g.whitespace level e = true) :
    g.Ends size m e xs (k.advances e) := by
  induction length using Nat.strong_induction_on generalizing level e m xs with
  | _ length ihlength =>
    induction level using Nat.strong_induction_on generalizing e m xs with
    | _ level ihlevel =>
      have hrule : ∀ r m (ys : List Char), k.rank r < level → ys.length ≤ length →
          g.Ends size m (.rule r) ys (k.consumes r) := by
        intro r m ys hr hys
        have hbody := ihlevel (k.rank r) hr (g.define r).body
          (m || (g.define r).mode == .atomic) ys hys (hk.guards_body r)
        exact (hbody.mono (hk.advances_body r)).rule
      induction e generalizing m xs with
      | text s => exact .text s
      | char among => exact .char among
      | start => exact .start
      | finish => exact .finish
      | rule r => exact hrule r m xs (of_decide_eq_true hguards) hlength
      | space =>
          simp only [guards, Bool.and_eq_true, decide_eq_true_eq] at hguards
          refine .space fun ys hys => ?_
          have hend := hrule g.whitespace true ys hguards.1 (by omega)
          rwa [hguards.2] at hend
      | cat a b iha ihb =>
          simp only [guards, Bool.and_eq_true] at hguards
          refine (iha m xs hlength hguards.1).cat fun ts mid _ hmid => ?_
          cases hadvances : k.advances a with
          | false =>
              rw [hadvances, if_neg Bool.false_ne_true] at hguards
              exact ihb m mid (by omega) hguards.2
          | true =>
              -- The text is shorter, so the rank of what follows does not matter.
              rw [hadvances, if_pos rfl] at hguards
              rw [hadvances, Bool.toNat_true] at hmid
              exact ihlength mid.length (by omega) k.bound b m mid (Nat.le_refl _) hguards.2
      | choice a b iha ihb =>
          simp only [guards, Bool.and_eq_true] at hguards
          exact (iha m xs hlength hguards.1).choice (ihb m xs hlength hguards.2)
      | many a iha =>
          simp only [guards, Bool.and_eq_true] at hguards
          refine .many fun ys hys => ?_
          have hend := iha m ys (by omega) hguards.1
          rwa [hguards.2] at hend
      | not a iha => exact (iha m xs hlength hguards).not

/-- Every rule reads every text to an end. -/
theorem exists_outcome (hk : k.Ranks g) (r : R) (text : String) :
    ∃ outcome, g.parse r text = some outcome := by
  have hguards : k.guards g.whitespace k.bound (.rule r) = true := decide_eq_true (hk.rank_lt r)
  rcases hk.ends text.toList.length _ k.bound (.rule r) false text.toList (Nat.le_refl _) hguards
    with hfails | ⟨trees, rest, htakes, -⟩
  · exact ⟨_, hfails⟩
  · exact ⟨_, htakes⟩

/-- What is taken is not empty, for an expression that is guarded and advances. -/
theorem length_lt (hk : k.Ranks g) {size : Nat} {m : Bool} {e : Exp R} {xs rest : List Char}
    {trees : List (ParseTree R)} (hguards : k.guards g.whitespace k.bound e = true)
    (hadvances : k.advances e = true) (h : g.Takes size m e xs trees rest) :
    rest.length < xs.length := by
  have hends := hk.ends size _ k.bound e m xs (Nat.le_refl _) hguards
  rw [hadvances] at hends
  rcases hends with hfails | ⟨ts, rest', htakes, hlength⟩
  · rw [Fails, h] at hfails
    cases hfails
  · rw [Takes, h] at htakes
    cases htakes
    exact hlength

/-- What does not take anything fails. -/
theorem fails_of_not_takes (hk : k.Ranks g) {size : Nat} {m : Bool} {e : Exp R} {xs : List Char}
    (hguards : k.guards g.whitespace k.bound e = true)
    (h : ∀ trees rest, ¬ g.Takes size m e xs trees rest) : g.Fails size m e xs := by
  rcases hk.ends size _ k.bound e m xs (Nat.le_refl _) hguards with
    hfails | ⟨trees, rest, htakes, -⟩
  · exact hfails
  · exact absurd htakes (h trees rest)

/-- Induction along the rounds of a repetition. -/
theorem takes_many_induction (hk : k.Ranks g) {size : Nat} {m : Bool} {a : Exp R}
    (hguards : k.guards g.whitespace k.bound a = true) (hadvances : k.advances a = true)
    {motive : List Char → List (ParseTree R) → List Char → Prop}
    (done : ∀ xs, motive xs [] xs)
    (round : ∀ xs ts mid us rest, g.Takes size m a xs ts mid → motive mid us rest →
      motive xs (ts ++ us) rest) {xs rest : List Char} {trees : List (ParseTree R)}
    (h : g.Takes size m (.many a) xs trees rest) : motive xs trees rest := by
  induction hn : xs.length using Nat.strong_induction_on generalizing xs trees with
  | _ n ih =>
    subst hn
    rcases takes_many_iff.mp h with ⟨-, rfl, rfl⟩ | ⟨ts, mid, us, hts, hus, rfl⟩
    · exact done rest
    · exact round xs ts mid us rest hts
        (ih mid.length (hk.length_lt hguards hadvances hts) hus rfl)

end Ranking.Ranks

end Peg

end Interleaving
