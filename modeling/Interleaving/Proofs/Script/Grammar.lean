import Interleaving.Script.Parser

/-!
# The Grammar of Scripts

The grammar that expressions and channel operations are read by, as a relation
between tokens and trees. A derivation says nothing about the order in which
tokens are looked at, nor about what follows them. The readers of
`Script.Parser` decide both: they go from left to right, take operators as long as
there are any, and leave the rest.

The two agree. What a reader has taken is derivable with the tree it gives. The
other way a derivable sequence is read completely, provided that the tokens after
it do not begin with an operator the reader would go on with. Which operators
these are depends on the part of the grammar: a sum goes on with `*`, but not with
`<`. So each operator has a number that says how tightly it binds, and a part of
the grammar ends before any operator that binds less tightly than itself.

The bounds of the readers play no role here. A derivable sequence has at least as
many tokens as operators in a chain and as parentheses around any part of it.

## Main definitions

* `Grammar.Derives`: The grammar of expressions.
* `Grammar.DerivesOp`: The grammar of channel operations.
* `Grammar.Ends`: What cannot go on an expression.

## Theorems

* `Grammar.expr_sound`: What is read is derivable.
* `Grammar.Derives.reads`: What is derivable is read.
* `Grammar.channelOp_sound`, `Grammar.channelOp_complete`: The same for channel
  operations.
* `ChannelOp.parse?_eq_some_iff`, `ChannelOp.parsePair?_eq_some_iff`: What texts are
  read as.
-/

namespace Interleaving

namespace Script

namespace Grammar

open Reader

/-- The levels at which operators form chains of any length. -/
inductive Level where
  | disjunction
  | conjunction
  | sum
  | product

/-- The parts of the grammar of expressions. -/
inductive Part where
  /-- Operands of a level with its operators between them. -/
  | chained (level : Level)
  /-- The operators and operands of a level that follow `left`. -/
  | after (level : Level) (left : Expr)
  | comparison
  | signed
  | primary

namespace Level

def operator? : Level → Token → Option BinaryOp
  | disjunction => orOp?
  | conjunction => andOp?
  | sum => sumOp?
  | product => productOp?

/-- What stands between the operators of a level. -/
def operand : Level → Part
  | disjunction => .chained .conjunction
  | conjunction => .comparison
  | sum => .chained .product
  | product => .signed

end Level

/-- Tokens that are a part of an expression, with its tree. The operators of one
    level group to the left, so the tree of a chain grows as it goes on. -/
inductive Derives : Part → List Token → Expr → Prop where
  | chain {level : Level} {ts us : List Token} {left e : Expr}
      (hfirst : Derives level.operand ts left) (hrest : Derives (.after level left) us e) :
      Derives (.chained level) (ts ++ us) e
  | done {level : Level} {left : Expr} : Derives (.after level left) [] left
  | more {level : Level} {token : Token} {op : BinaryOp} {ts us : List Token}
      {left right e : Expr} (hop : level.operator? token = some op)
      (hright : Derives level.operand ts right)
      (hrest : Derives (.after level (.binary op left right)) us e) :
      Derives (.after level left) (token :: (ts ++ us)) e
  | uncompared {ts : List Token} {e : Expr} (hsum : Derives (.chained .sum) ts e) :
      Derives .comparison ts e
  | compared {token : Token} {op : BinaryOp} {ts us : List Token} {left right : Expr}
      (hop : comparisonOp? token = some op) (hleft : Derives (.chained .sum) ts left)
      (hright : Derives (.chained .sum) us right) :
      Derives .comparison (ts ++ token :: us) (.binary op left right)
  | not {ts : List Token} {e : Expr} (hoperand : Derives .signed ts e) :
      Derives .signed (.bang :: ts) (.unary .not e)
  | neg {ts : List Token} {e : Expr} (hoperand : Derives .signed ts e) :
      Derives .signed (.minus :: ts) (.unary .neg e)
  | unsigned {ts : List Token} {e : Expr} (hprimary : Derives .primary ts e) :
      Derives .signed ts e
  | bool (b : Bool) : Derives .primary [.bool b] (.literal (.bool b))
  | number (n : Int64) : Derives .primary [.number n] (.literal (.int n))
  | ident (name : String) : Derives .primary [.ident name] (.var name)
  | parens {ts : List Token} {e : Expr} (hinner : Derives (.chained .disjunction) ts e) :
      Derives .primary (.opening :: (ts ++ [.closing])) e

/-- Tokens that are a channel operation. -/
inductive DerivesOp : List Token → ChannelOp → Prop where
  | send (channel : String) {ts : List Token} {value : Expr}
      (hvalue : Derives (.chained .disjunction) ts value) :
      DerivesOp (.ident channel :: .bang :: ts) (.send channel value)
  | receive (channel target : String) :
      DerivesOp [.ident channel, .query, .ident target] (.receive channel target)

section Soundness

/-- What the reader takes belongs to a part of the grammar. -/
def Sound (reader : Reader Expr) (part : Part) : Prop :=
  ∀ tokens e rest, reader tokens = some (e, rest) →
    ∃ ts, tokens = ts ++ rest ∧ Derives part ts e

theorem chainFrom_sound {level : Level} {operand : Reader Expr}
    (hoperand : Sound operand level.operand) (bound : Nat) :
    ∀ left, Sound (chainFrom level.operator? operand bound left) (.after level left) := by
  induction bound with
  | zero =>
      intro left tokens e rest h
      cases h
      exact ⟨[], rfl, .done⟩
  | succ bound ih =>
      intro left tokens e rest h
      cases tokens with
      | nil =>
          cases h
          exact ⟨[], rfl, .done⟩
      | cons token tail =>
          rw [chainFrom] at h
          split at h
          · cases h
            exact ⟨[], rfl, .done⟩
          · next op hop =>
            split at h
            · cases h
            · next right tail' hright =>
              -- One operator and one operand are taken, and the rest of the chain
              -- goes on with the tree that includes them.
              rcases hoperand _ _ _ hright with ⟨ts, rfl, hts⟩
              rcases ih _ _ _ _ h with ⟨us, rfl, hus⟩
              exact ⟨token :: (ts ++ us), by simp, .more hop hts hus⟩

theorem chain_sound (level : Level) {operand : Reader Expr}
    (hoperand : Sound operand level.operand) (bound : Nat) :
    Sound (chain level.operator? operand bound) (.chained level) := by
  intro tokens e rest h
  rw [chain] at h
  split at h
  · cases h
  · next left tail hleft =>
    rcases hoperand _ _ _ hleft with ⟨ts, rfl, hts⟩
    rcases chainFrom_sound hoperand bound left _ _ _ h with ⟨us, rfl, hus⟩
    exact ⟨ts ++ us, (List.append_assoc ts us rest).symm, .chain hts hus⟩

/-- The bound of one operator is what keeps comparisons from forming chains. -/
theorem comparison_sound {operand : Reader Expr} (hoperand : Sound operand (.chained .sum)) :
    Sound (chain comparisonOp? operand 1) .comparison := by
  intro tokens e rest h
  rw [chain] at h
  split at h
  · cases h
  · next left tail hleft =>
    rcases hoperand _ _ _ hleft with ⟨ts, rfl, hts⟩
    cases tail with
    | nil =>
        cases h
        exact ⟨ts, rfl, .uncompared hts⟩
    | cons token tail =>
        rw [chainFrom] at h
        split at h
        · cases h
          exact ⟨ts, rfl, .uncompared hts⟩
        · next op hop =>
          split at h
          · cases h
          · next right tail' hright =>
            rcases hoperand _ _ _ hright with ⟨us, rfl, hus⟩
            cases h
            exact ⟨ts ++ token :: us, by simp, .compared hop hts hus⟩

theorem primary_sound {nested : Reader Expr} (hnested : Sound nested (.chained .disjunction)) :
    Sound (primary nested) .primary := by
  intro tokens e rest h
  unfold primary at h
  split at h
  · next b tail =>
    cases h
    exact ⟨[.bool b], rfl, .bool b⟩
  · next n tail =>
    cases h
    exact ⟨[.number n], rfl, .number n⟩
  · next name tail =>
    cases h
    exact ⟨[.ident name], rfl, .ident name⟩
  · next tail =>
    split at h
    · next e' tail' hinner =>
      cases h
      rcases hnested _ _ _ hinner with ⟨ts, rfl, hts⟩
      exact ⟨.opening :: (ts ++ [.closing]), by simp, .parens hts⟩
    · cases h
  · cases h

theorem signed_sound {nested : Reader Expr} (hnested : Sound nested (.chained .disjunction)) :
    Sound (signed nested) .signed := by
  intro tokens
  fun_induction signed nested tokens with
  | case1 tail ih =>
      intro e rest h
      rw [Option.map_eq_some_iff] at h
      rcases h with ⟨⟨e', rest'⟩, htail, hpair⟩
      cases hpair
      rcases ih _ _ htail with ⟨ts, rfl, hts⟩
      exact ⟨.bang :: ts, rfl, .not hts⟩
  | case2 tail ih =>
      intro e rest h
      rw [Option.map_eq_some_iff] at h
      rcases h with ⟨⟨e', rest'⟩, htail, hpair⟩
      cases hpair
      rcases ih _ _ htail with ⟨ts, rfl, hts⟩
      exact ⟨.minus :: ts, rfl, .neg hts⟩
  | case3 tokens =>
      intro e rest h
      rcases primary_sound hnested _ _ _ h with ⟨ts, rfl, hts⟩
      exact ⟨ts, rfl, .unsigned hts⟩

theorem expr_sound (depth : Nat) : Sound (expr depth) (.chained .disjunction) := by
  induction depth with
  | zero =>
      intro tokens e rest h
      cases h
  | succ depth ih =>
      have hproduct : Sound (product (expr depth) depth) (.chained .product) :=
        chain_sound .product (signed_sound ih) depth
      have hsum : Sound (sum (expr depth) depth) (.chained .sum) :=
        chain_sound .sum hproduct depth
      have hconjunction : Sound (conjunction (expr depth) depth) (.chained .conjunction) :=
        chain_sound .conjunction (comparison_sound hsum) depth
      exact chain_sound .disjunction hconjunction depth

theorem channelOp_sound {tokens rest : List Token} {op : ChannelOp}
    (h : channelOp tokens = some (op, rest)) : ∃ ts, tokens = ts ++ rest ∧ DerivesOp ts op := by
  unfold channelOp at h
  split at h
  · next channel tail =>
    rw [Option.map_eq_some_iff] at h
    rcases h with ⟨⟨value, rest'⟩, hvalue, hpair⟩
    cases hpair
    rcases expr_sound _ _ _ _ hvalue with ⟨ts, rfl, hts⟩
    exact ⟨.ident channel :: .bang :: ts, rfl, .send channel hts⟩
  · next channel target tail =>
    cases h
    exact ⟨[.ident channel, .query, .ident target], rfl, .receive channel target⟩
  · cases h

end Soundness

section Completeness

/-- How tightly an operator between two operands binds. -/
def tightness? : Token → Option Nat
  | .orOr => some 0
  | .andAnd => some 1
  | .eqEq | .bangEq | .less | .lessEq | .greater | .greaterEq => some 2
  | .plus | .minus => some 3
  | .star | .slash | .percent => some 4
  | _ => none

def Level.tightness : Level → Nat
  | disjunction => 0
  | conjunction => 1
  | sum => 3
  | product => 4

/-- The least tightness of the operators that stand outside parentheses. -/
def Part.tightness : Part → Nat
  | chained level => level.tightness
  | after level _ => level.tightness
  | comparison => 2
  | signed => 5
  | primary => 5

/-- An operator at the front of `rest` binds less tightly than `n`. -/
def Ends (n : Nat) (rest : List Token) : Prop :=
  ∀ token k, rest.head? = some token → tightness? token = some k → k < n

theorem Ends.mono {n m : Nat} {rest : List Token} (h : Ends n rest) (hnm : n ≤ m) :
    Ends m rest := by
  intro token k htoken hk
  have hlt := h token k htoken hk
  omega

theorem ends_nil (n : Nat) : Ends n [] := by
  intro token k htoken
  cases htoken

theorem ends_cons_of_tightness {n k : Nat} {token : Token} {rest : List Token}
    (htoken : tightness? token = some k) (hk : k < n) : Ends n (token :: rest) := by
  intro token' k' htoken' hk'
  cases htoken'
  rw [htoken] at hk'
  cases hk'
  exact hk

theorem ends_cons_of_none {n : Nat} {token : Token} {rest : List Token}
    (htoken : tightness? token = none) : Ends n (token :: rest) := by
  intro token' k' htoken' hk'
  cases htoken'
  rw [htoken] at hk'
  cases hk'

theorem tightness?_of_operator? {level : Level} {token : Token} {op : BinaryOp}
    (h : level.operator? token = some op) : tightness? token = some level.tightness := by
  cases level <;> cases token <;> first | rfl | cases h

theorem tightness?_of_comparisonOp? {token : Token} {op : BinaryOp}
    (h : comparisonOp? token = some op) : tightness? token = some 2 := by
  cases token <;> first | rfl | cases h

theorem tightness_lt_operand (level : Level) : level.tightness < level.operand.tightness := by
  cases level <;> decide

/-- What follows an operand of a chain ends it, be it the next operator of the chain
    or what follows the chain. -/
theorem ends_operand {level : Level} {left e : Expr} {us rest : List Token}
    (h : Derives (.after level left) us e) (hrest : Ends level.tightness rest) :
    Ends level.operand.tightness (us ++ rest) := by
  have hlt := tightness_lt_operand level
  cases h with
  | done => exact hrest.mono (by omega)
  | more hop _ _ => exact ends_cons_of_tightness (tightness?_of_operator? hop) hlt

theorem operator?_eq_none {level : Level} {token : Token} {rest : List Token}
    (h : Ends level.tightness (token :: rest)) : level.operator? token = none := by
  cases hop : level.operator? token with
  | none => rfl
  | some op =>
      have hlt := h token _ rfl (tightness?_of_operator? hop)
      omega

theorem comparisonOp?_eq_none {token : Token} {rest : List Token}
    (h : Ends 2 (token :: rest)) : comparisonOp? token = none := by
  cases hop : comparisonOp? token with
  | none => rfl
  | some op =>
      have hlt := h token _ rfl (tightness?_of_comparisonOp? hop)
      omega

/-- The reader of the operands of a level, for expressions nested up to `depth`. -/
def Level.operandReader (depth : Nat) : Level → Reader Expr
  | disjunction => Reader.conjunction (expr depth) depth
  | conjunction => Reader.comparison (expr depth) depth
  | sum => Reader.product (expr depth) depth
  | product => Reader.signed (expr depth)

/-- A part of the grammar is read from the front of `ts ++ rest`, which leaves `rest`.
    The rest of a chain is read with any bound that is large enough. -/
def Part.Reads (depth : Nat) (ts rest : List Token) (e : Expr) : Part → Prop
  | chained level =>
    Reader.chain level.operator? (level.operandReader depth) depth (ts ++ rest) = some (e, rest)
  | after level left => ∀ bound, ts.length ≤ bound →
    chainFrom level.operator? (level.operandReader depth) bound left (ts ++ rest) = some (e, rest)
  | comparison => Reader.comparison (expr depth) depth (ts ++ rest) = some (e, rest)
  | signed => Reader.signed (expr depth) (ts ++ rest) = some (e, rest)
  | primary => Reader.primary (expr depth) (ts ++ rest) = some (e, rest)

theorem operandReader_of_reads {level : Level} {depth : Nat} {ts rest : List Token} {e : Expr}
    (h : level.operand.Reads depth ts rest e) :
    level.operandReader depth (ts ++ rest) = some (e, rest) := by
  cases level <;> exact h

theorem signed_eq_primary {ts rest : List Token} {e : Expr} (h : Derives .primary ts e)
    (nested : Reader Expr) : signed nested (ts ++ rest) = primary nested (ts ++ rest) := by
  cases h <;> rfl

/-- A derivable sequence is read completely. The induction is on the derivation, and
    every case asks the depth to be as large as the number of tokens. -/
theorem Derives.reads {part : Part} {ts : List Token} {e : Expr} (h : Derives part ts e) :
    ∀ depth rest, ts.length ≤ depth → Ends part.tightness rest → part.Reads depth ts rest e := by
  induction h with
  | @chain level ts us left e hfirst hrest ihfirst ihrest =>
      intro depth rest hdepth hends
      rw [List.length_append] at hdepth
      -- The first operand ends where the rest of the chain begins.
      have hoperand := operandReader_of_reads
        (ihfirst depth (us ++ rest) (by omega) (ends_operand hrest hends))
      simp only [Part.Reads, Reader.chain, List.append_assoc, hoperand]
      exact ihrest depth rest (by omega) hends depth (by omega)
  | @done level left =>
      intro depth rest hdepth hends bound hbound
      cases rest with
      | nil => cases bound <;> rfl
      | cons token rest =>
          cases bound with
          | zero => rfl
          | succ bound => simp only [List.nil_append, chainFrom, operator?_eq_none hends]
  | @more level token op ts us left right e hop hright hrest ihright ihrest =>
      intro depth rest hdepth hends bound hbound
      rw [List.length_cons, List.length_append] at hdepth hbound
      have hoperand := operandReader_of_reads
        (ihright depth (us ++ rest) (by omega) (ends_operand hrest hends))
      -- An operator takes one off the bound and at least one token off the rest.
      obtain ⟨bound, rfl⟩ : ∃ b, bound = b + 1 := ⟨bound - 1, by omega⟩
      simp only [List.cons_append, List.append_assoc, chainFrom, hop, hoperand]
      exact ihrest depth rest (by omega) hends bound (by omega)
  | @uncompared ts e hsum ihsum =>
      intro depth rest hdepth hends
      have hread : Reader.sum (expr depth) depth (ts ++ rest) = some (e, rest) :=
        ihsum depth rest hdepth (hends.mono (by decide))
      simp only [Part.Reads, Reader.comparison, Reader.chain, hread]
      cases rest with
      | nil => rfl
      | cons token rest => simp only [chainFrom, comparisonOp?_eq_none hends]
  | @compared token op ts us left right hop hleft hright ihleft ihright =>
      intro depth rest hdepth hends
      rw [List.length_append, List.length_cons] at hdepth
      -- A sum ends before an operator that compares.
      have hleftEnds : Ends (Part.chained .sum).tightness (token :: (us ++ rest)) :=
        ends_cons_of_tightness (tightness?_of_comparisonOp? hop) (by decide)
      have hleftRead : Reader.sum (expr depth) depth (ts ++ token :: (us ++ rest)) =
          some (left, token :: (us ++ rest)) := ihleft depth _ (by omega) hleftEnds
      have hrightRead : Reader.sum (expr depth) depth (us ++ rest) = some (right, rest) :=
        ihright depth rest (by omega) (hends.mono (by decide))
      simp only [Part.Reads, Reader.comparison, Reader.chain, List.append_assoc, List.cons_append,
        hleftRead, chainFrom, hop, hrightRead]
  | @not ts e hoperand ih =>
      intro depth rest hdepth hends
      rw [List.length_cons] at hdepth
      have hread : signed (expr depth) (ts ++ rest) = some (e, rest) :=
        ih depth rest (by omega) hends
      simp only [Part.Reads, List.cons_append, Reader.signed, hread, Option.map_some]
  | @neg ts e hoperand ih =>
      intro depth rest hdepth hends
      rw [List.length_cons] at hdepth
      have hread : signed (expr depth) (ts ++ rest) = some (e, rest) :=
        ih depth rest (by omega) hends
      simp only [Part.Reads, List.cons_append, Reader.signed, hread, Option.map_some]
  | @unsigned ts e hprimary ih =>
      intro depth rest hdepth hends
      exact (signed_eq_primary hprimary _).trans (ih depth rest hdepth hends)
  | bool b =>
      intro depth rest hdepth hends
      rfl
  | number n =>
      intro depth rest hdepth hends
      rfl
  | ident name =>
      intro depth rest hdepth hends
      rfl
  | @parens ts e hinner ih =>
      intro depth rest hdepth hends
      rw [List.length_cons, List.length_append, List.length_singleton] at hdepth
      -- The expression between the parentheses is two tokens shorter, so the
      -- depth that is left for it is large enough.
      obtain ⟨depth, rfl⟩ : ∃ d, depth = d + 1 := ⟨depth - 1, by omega⟩
      have hread : expr (depth + 1) (ts ++ .closing :: rest) = some (e, .closing :: rest) :=
        ih depth (.closing :: rest) (by omega) (ends_cons_of_none rfl)
      simp only [Part.Reads, List.cons_append, List.append_assoc, List.nil_append,
        Reader.primary, hread]

/-- The number of tokens is a depth that is large enough. -/
theorem Derives.expression_eq {ts rest : List Token} {e : Expr}
    (h : Derives (.chained .disjunction) ts e) (hends : Ends 0 rest) :
    expression (ts ++ rest) = some (e, rest) :=
  h.reads (ts ++ rest).length rest (by rw [List.length_append]; omega) hends

theorem channelOp_complete {ts rest : List Token} {op : ChannelOp} (h : DerivesOp ts op)
    (hends : Ends 0 rest) : channelOp (ts ++ rest) = some (op, rest) := by
  cases h with
  | receive channel target => rfl
  | @send channel ts value hvalue =>
      simp only [List.cons_append, channelOp, hvalue.expression_eq hends, Option.map_some]

end Completeness

/-- The tokens that may stand in an expression. The others separate expressions
    from each other or belong to statements and channel operations. -/
def isOperandOrOperator : Token → Bool
  | .skip | .assign | .semicolon | .query | .bar => false
  | _ => true

theorem isOperandOrOperator_of_tightness? {token : Token} {n : Nat}
    (h : tightness? token = some n) : isOperandOrOperator token = true := by
  cases token <;> first | rfl | cases h

theorem Derives.all_isOperandOrOperator {part : Part} {ts : List Token} {e : Expr}
    (h : Derives part ts e) : ∀ token ∈ ts, isOperandOrOperator token = true := by
  induction h with
  | chain hfirst hrest ihfirst ihrest =>
      simp only [List.mem_append]
      intro token htoken
      exact htoken.elim (ihfirst token) (ihrest token)
  | done => simp
  | more hop hright hrest ihright ihrest =>
      have hoperator := isOperandOrOperator_of_tightness? (tightness?_of_operator? hop)
      simp only [List.mem_cons, List.mem_append, forall_eq_or_imp]
      exact ⟨hoperator, fun token htoken => htoken.elim (ihright token) (ihrest token)⟩
  | uncompared hsum ih => exact ih
  | compared hop hleft hright ihleft ihright =>
      have hoperator := isOperandOrOperator_of_tightness? (tightness?_of_comparisonOp? hop)
      simp only [List.mem_append, List.mem_cons]
      intro token htoken
      rcases htoken with htoken | rfl | htoken
      · exact ihleft token htoken
      · exact hoperator
      · exact ihright token htoken
  | not hoperand ih =>
      simp only [List.mem_cons, forall_eq_or_imp]
      exact ⟨rfl, ih⟩
  | neg hoperand ih =>
      simp only [List.mem_cons, forall_eq_or_imp]
      exact ⟨rfl, ih⟩
  | unsigned hprimary ih => exact ih
  | bool b => simp [isOperandOrOperator]
  | number n => simp [isOperandOrOperator]
  | ident name => simp [isOperandOrOperator]
  | parens hinner ih =>
      simp only [List.mem_cons, List.mem_append, List.not_mem_nil, or_false, forall_eq_or_imp]
      refine ⟨rfl, fun token htoken => ?_⟩
      rcases htoken with htoken | rfl
      · exact ih token htoken
      · rfl

theorem DerivesOp.bar_not_mem {ts : List Token} {op : ChannelOp} (h : DerivesOp ts op) :
    .bar ∉ ts := by
  cases h with
  | receive channel target => simp
  | @send channel ts value hvalue =>
      have hnot : Token.bar ∉ ts := fun hmem =>
        Bool.false_ne_true (hvalue.all_isOperandOrOperator .bar hmem)
      simp [hnot]

theorem DerivesOp.exists_ident {ts : List Token} {op : ChannelOp} (h : DerivesOp ts op) :
    ∃ name us, ts = .ident name :: us := by
  cases h with
  | receive channel target => exact ⟨channel, _, rfl⟩
  | send channel _ => exact ⟨channel, _, rfl⟩

theorem toEnd_eq_some_iff {α : Type} {reader : Reader α} {tokens : List Token} {a : α} :
    reader.toEnd tokens = some a ↔ reader tokens = some (a, []) := by
  unfold Reader.toEnd
  split
  · next a' hread => simp [hread]
  · next hnot =>
    constructor
    · intro h
      cases h
    · intro h
      exact absurd h (hnot a)

theorem channelOp_toEnd_iff {ts : List Token} {op : ChannelOp} :
    Reader.channelOp.toEnd ts = some op ↔ DerivesOp ts op := by
  rw [toEnd_eq_some_iff]
  constructor
  · intro h
    rcases channelOp_sound h with ⟨ts', rfl, hop⟩
    rw [List.append_nil]
    exact hop
  · intro h
    have hread : Reader.channelOp (ts ++ []) = some (op, []) := channelOp_complete h (ends_nil 0)
    rwa [List.append_nil] at hread

theorem pair_toEnd_iff {tokens : List Token} {first second : ChannelOp} :
    Reader.pair.toEnd tokens = some (first, second) ↔
      ∃ ts us, tokens = ts ++ .bar :: us ∧ DerivesOp ts first ∧ DerivesOp us second := by
  rw [toEnd_eq_some_iff]
  constructor
  · intro h
    unfold Reader.pair at h
    split at h
    · next first' rest hfirst =>
      rw [Option.map_eq_some_iff] at h
      rcases h with ⟨⟨second', rest'⟩, hsecond, hpair⟩
      cases hpair
      rcases channelOp_sound hfirst with ⟨ts, rfl, hts⟩
      exact ⟨ts, rest, rfl, hts, channelOp_toEnd_iff.mp (toEnd_eq_some_iff.mpr hsecond)⟩
    · cases h
  · intro h
    rcases h with ⟨ts, us, rfl, hts, hus⟩
    have hfirst : Reader.channelOp (ts ++ .bar :: us) = some (first, .bar :: us) :=
      channelOp_complete hts (ends_cons_of_none rfl)
    have hsecond : Reader.channelOp us = some (second, []) :=
      toEnd_eq_some_iff.mp (channelOp_toEnd_iff.mpr hus)
    simp only [Reader.pair, hfirst, hsecond, Option.map_some]

end Grammar

open Grammar

theorem ChannelOp.parse?_eq_some_iff {text : String} {op : ChannelOp} :
    ChannelOp.parse? text = some op ↔
      ∃ ts, Token.tokenize text = some ts ∧ DerivesOp ts op := by
  unfold ChannelOp.parse?
  simp only [Option.bind_eq_bind, Option.bind_eq_some_iff, channelOp_toEnd_iff]

theorem ChannelOp.parsePair?_eq_some_iff {text : String} {first second : ChannelOp} :
    ChannelOp.parsePair? text = some (first, second) ↔
      ∃ ts us, Token.tokenize text = some (ts ++ .bar :: us) ∧ DerivesOp ts first ∧
        DerivesOp us second := by
  unfold ChannelOp.parsePair?
  simp only [Option.bind_eq_bind, Option.bind_eq_some_iff, pair_toEnd_iff]
  constructor
  · intro h
    rcases h with ⟨tokens, htokens, ts, us, rfl, hts, hus⟩
    exact ⟨ts, us, htokens, hts, hus⟩
  · intro h
    rcases h with ⟨ts, us, htokens, hts, hus⟩
    exact ⟨ts ++ .bar :: us, htokens, ts, us, rfl, hts, hus⟩

end Script

end Interleaving
