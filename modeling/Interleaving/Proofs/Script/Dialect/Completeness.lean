import Interleaving.Proofs.Script.Dialect.Soundness

/-!
# What Is Derivable the Dialect Takes

A text whose tokens are derivable is taken by the dialect, and the tree that is left builds
what was derived. Here the order of the alternatives matters, and that a repetition never
gives anything back. An alternative that comes first must fail where a later one is meant,
and a repetition must stop where the derivation does.

Both follow from the first token of what comes next. A rule for an operator takes something
only where the next token is an operator of its level, for the scan and the rule agree on
where a sign ends. And the words `true`, `false` and `skip` are keywords for the one if and
only if they are tokens of their own for the other.

The induction is along derivations, as for the readers that go by tokens. A part of an
expression is taken from a text without space at the front, and the rest has the tokens that
follow.

## Main definitions

* `Dialect.Fresh`: No space stands at the front.
* `Dialect.Behind`: Where the next part begins.
* `Dialect.Accepts`, `Dialect.AcceptsPart`: A rule takes what builds an expression, up to given
  tokens.

## Theorems

* `Dialect.exists_lexeme_of_scan`: The first token of a text and where it ends.
* `Dialect.acceptsPart_of_derives`: What is derivable is taken.
-/

namespace Interleaving

namespace Script

namespace Dialect

open Peg Peg.Grammar Script.Grammar Token

variable {size : Nat} {xs rest : List Char} {t : Token} {ts us : List Token}

/-- No space stands at the front. -/
def Fresh (xs : List Char) : Prop :=
  ∀ c rest, xs = c :: rest → isSpace c = false

section Tokens

theorem joins_of_sign {c z : Char} {r zs : List Char} {more : Nat}
    (h : sign c r = some (t, more)) (hz : r.drop more = z :: zs) : joins t z = false := by
  cases r with
  | nil =>
      rw [List.drop_nil] at hz
      cases hz
  | cons d r =>
      rcases sign_cases h with ⟨hpair, rfl⟩ | ⟨hpair, hnil, rfl⟩
      · unfold pairSign? at hpair
        split at hpair <;> cases hpair <;> rfl
      · cases hz
        cases hjoins : joins t z with
        | false => rfl
        | true =>
            unfold sign at hnil
            split at hnil <;> cases hnil <;> first | cases hjoins | skip
            all_goals
              cases eq_of_beq hjoins
              cases hpair

/-- Nothing that follows the first token would make it longer. -/
theorem joins_of_first {c z : Char} {r zs : List Char} {more : Nat}
    (h : first c r = some (t, more)) (hz : r.drop more = z :: zs) : joins t z = false := by
  have hrun : ∀ among : Char → Bool, r.drop (r.takeWhile among).length = z :: zs →
      among z = false := by
    intro among hdrop
    have hspans := spans_takeWhile among r
    rw [hspans.drop_eq] at hdrop
    exact hspans.apart z zs hdrop
  unfold first at h
  by_cases hword : isWordStart c = true
  · rw [if_pos hword] at h
    cases h
    rw [joins_ofWord]
    exact hrun isWordChar hz
  · rw [if_neg hword] at h
    by_cases hdigit : c.isDigit = true
    · rw [if_pos hdigit] at h
      simp only [Option.map_eq_some_iff] at h
      rcases h with ⟨number, hnumber, hpair⟩
      cases hpair
      rw [joins_of_ofDigits hnumber]
      exact hrun Char.isDigit hz
    · rw [if_neg hdigit] at h
      exact joins_of_sign h hz

theorem scan_cons {c : Char} {r : List Char} {more : Nat} (hc : isSpace c = false)
    (h : first c r = some (t, more)) :
    scan 0 (c :: r) = (scan 0 (r.drop more)).map (t :: ·) := by
  rw [scan, if_neg (by rw [hc]; exact Bool.false_ne_true), h]
  simp only [scan_eq_scan_drop more]

/-- The first token of a text, what follows it, and that the two do not join. -/
theorem exists_lexeme_of_scan (hfresh : Fresh xs) (h : scan 0 xs = some (t :: ts)) :
    ∃ l rest, xs = l ++ rest ∧ t.Lexeme l ∧ scan 0 rest = some ts ∧
      ∀ z zs, rest = z :: zs → joins t z = false := by
  cases xs with
  | nil => cases h
  | cons c r =>
      cases hfirst : first c r with
      | none =>
          rw [scan, if_neg (by rw [hfresh c r rfl]; exact Bool.false_ne_true), hfirst] at h
          cases h
      | some found =>
          rcases found with ⟨t', more⟩
          rw [scan_cons (hfresh c r rfl) hfirst, Option.map_eq_some_iff] at h
          rcases h with ⟨ts', hts, hcons⟩
          cases hcons
          refine ⟨c :: r.take more, r.drop more, ?_, lexeme_first hfirst, hts, ?_⟩
          · rw [List.cons_append, List.take_append_drop]
          · intro z zs hz
            exact joins_of_first hfirst hz

theorem eq_nil_of_scan_nil (hfresh : Fresh xs) (h : scan 0 xs = some []) : xs = [] := by
  cases xs with
  | nil => rfl
  | cons c r =>
      rw [scan, if_neg (by rw [hfresh c r rfl]; exact Bool.false_ne_true)] at h
      split at h
      · cases h
      · rw [Option.map_eq_some_iff] at h
        rcases h with ⟨ts, -, hts⟩
        cases hts

/-- Behind the space at the front, a text has the same tokens. -/
theorem exists_fresh (h : scan 0 xs = some ts) :
    ∃ sp xs', Spans isSpace sp xs xs' ∧ Fresh xs' ∧ scan 0 xs' = some ts := by
  have hspans := spans_takeWhile isSpace xs
  refine ⟨_, _, hspans, hspans.apart, ?_⟩
  rwa [hspans.eq_append, scan_blank hspans.blank] at h

theorem Fresh.takes_space (hfresh : Fresh xs) : grammar.Takes size false .space xs [] xs :=
  takes_space_iff.mpr ⟨rfl, [], rfl, by simp, hfresh⟩

/-- Behind what `a` takes from `xs` there is space, and then `ys`. -/
structure Behind (size : Nat) (a : Exp Rule) (xs : List Char) (trees : List (ParseTree Rule))
    (ys : List Char) : Prop where
  takes {b : Exp Rule} {us : List (ParseTree Rule)} {rest : List Char}
    (h : grammar.Takes size false b ys us rest) :
    grammar.Takes size false (.seq a b) xs (trees ++ us) rest
  fails {b : Exp Rule} (h : grammar.Fails size false b ys) :
    grammar.Fails size false (.seq a b) xs

/-- A part that is taken, and where the next one begins. -/
theorem exists_behind {a : Exp Rule} {trees : List (ParseTree Rule)}
    (h : grammar.Takes size false a xs trees rest) (hscan : scan 0 rest = some ts) :
    ∃ ys, Fresh ys ∧ scan 0 ys = some ts ∧ Behind size a xs trees ys := by
  rcases exists_fresh hscan with ⟨sp, ys, hsp, hfresh, hys⟩
  have hspace : grammar.Takes size false .space rest [] ys := takes_space_iff.mpr ⟨rfl, sp, hsp⟩
  refine ⟨ys, hfresh, hys, fun hb => ?_, fun hb => ?_⟩
  · exact takes_seq_iff.mpr ⟨trees, rest, [], ys, _, h, hspace, hb, rfl⟩
  · exact fails_cat_iff.mpr
      (Or.inr ⟨trees, rest, h, fails_cat_iff.mpr (Or.inr ⟨[], ys, hspace, hb⟩)⟩)

/-- A sign that is always written the same is taken as that text. -/
theorem exists_takes_text {s : String} (hlexeme : ∀ l, t.Lexeme l → l = s.toList)
    (hfresh : Fresh xs) (h : scan 0 xs = some (t :: ts)) :
    ∃ rest, grammar.Takes size false (.text s) xs [] rest ∧ scan 0 rest = some ts := by
  rcases exists_lexeme_of_scan hfresh h with ⟨l, rest, rfl, hl, hrest, -⟩
  rw [hlexeme l hl]
  exact ⟨rest, takes_text_iff.mpr ⟨rfl, rfl⟩, hrest⟩

end Tokens

section Words

variable {l : List Char}

theorem fails_boolean (hspans : Spans isWordChar l xs rest)
    (hl : ∀ w ∈ ["true", "false"], l ≠ w.toList) :
    grammar.Fails size false (.rule .boolean) xs := by
  refine fails_of_not_takes fun trees rest' h => ?_
  rcases takes_boolean_iff.mp h with ⟨w, hw, hspans', -⟩
  exact hl w hw (hspans.unique hspans').1

theorem fails_skipStmt (hspans : Spans isWordChar l xs rest) (hl : l ≠ "skip".toList) :
    grammar.Fails size false (.rule .skipStmt) xs := by
  refine fails_of_not_takes fun trees rest' h => ?_
  rcases takes_skipStmt_iff.mp h with ⟨w, hw, hspans', -⟩
  rw [List.mem_singleton.mp hw] at hspans'
  exact hl (hspans.unique hspans').1

theorem fails_ident (hspans : Spans isWordChar l xs rest) (hl : ¬ IsName l) :
    grammar.Fails size false (.rule .ident) xs := by
  refine fails_of_not_takes fun trees rest' h => ?_
  rcases takes_ident_iff.mp h with ⟨l', hspans', hname, -⟩
  rw [(hspans.unique hspans').1] at hl
  exact hl hname

theorem fails_int {c : Char} {r : List Char} (hc : ¬ c.isDigit = true) :
    grammar.Fails size false (.rule .int) (c :: r) := by
  refine fails_of_not_takes fun trees rest' h => ?_
  rcases takes_int_iff.mp h with ⟨l, hspans, hl, -⟩
  rcases List.exists_cons_of_ne_nil hl with ⟨d, l, rfl⟩
  have hd := hspans.all d List.mem_cons_self
  rw [← (List.cons.inj hspans.eq_append).1] at hd
  exact hc hd

/-- A name is taken as such, and as nothing that is tried before it. -/
theorem exists_takes_ident {name : String} (hfresh : Fresh xs)
    (h : scan 0 xs = some (.ident name :: ts)) :
    ∃ rest, grammar.Takes size false (.rule .ident) xs [.node .ident name []] rest ∧
      scan 0 rest = some ts ∧ grammar.Fails size false (.rule .boolean) xs ∧
      grammar.Fails size false (.rule .int) xs ∧
      grammar.Fails size false (.rule .skipStmt) xs := by
  rcases exists_lexeme_of_scan hfresh h with ⟨l, rest, rfl, ⟨hname, rfl⟩, hrest, hapart⟩
  rcases isName_iff.mp hname with ⟨⟨c, l', rfl, hc, hl'⟩, hkeywords⟩
  have hspans : Spans isWordChar (c :: l') (c :: l' ++ rest) rest :=
    ⟨rfl, List.forall_mem_cons.mpr ⟨isWordChar_of_isWordStart hc, hl'⟩, hapart⟩
  refine ⟨rest, takes_ident_iff.mpr ⟨_, hspans, hname, rfl⟩, hrest,
    fails_boolean hspans fun w hw => hkeywords w ?_, fails_int ?_,
    fails_skipStmt hspans (hkeywords "skip" (by decide))⟩
  · exact List.mem_append_left ["skip"] hw
  · intro hdigit
    rw [isWordStart_eq_false_of_isDigit hdigit] at hc
    cases hc

theorem exists_takes_boolean {b : Bool} (hfresh : Fresh xs)
    (h : scan 0 xs = some (.bool b :: ts)) :
    ∃ w rest, grammar.Takes size false (.rule .boolean) xs [.node .boolean w []] rest ∧
      (w == "true") = b ∧ scan 0 rest = some ts := by
  rcases exists_lexeme_of_scan hfresh h with ⟨l, rest, rfl, hl, hrest, hapart⟩
  cases b with
  | true =>
      cases hl
      refine ⟨"true", rest, takes_boolean_iff.mpr ⟨"true", by decide, ?_, rfl⟩, rfl, hrest⟩
      exact ⟨rfl, List.all_eq_true.mp (by decide), hapart⟩
  | false =>
      cases hl
      refine ⟨"false", rest, takes_boolean_iff.mpr ⟨"false", by decide, ?_, rfl⟩, rfl, hrest⟩
      exact ⟨rfl, List.all_eq_true.mp (by decide), hapart⟩

theorem exists_takes_int {n : Int64} (hfresh : Fresh xs)
    (h : scan 0 xs = some (.number n :: ts)) :
    ∃ text rest, grammar.Takes size false (.rule .int) xs [.node .int text []] rest ∧
      checked (Text.valueOfDigits text.toList) = some n ∧ scan 0 rest = some ts ∧
      grammar.Fails size false (.rule .boolean) xs := by
  rcases exists_lexeme_of_scan hfresh h with ⟨l, rest, rfl, ⟨hne, hdigits, hvalue⟩, hrest, hapart⟩
  refine ⟨String.ofList l, rest, takes_int_iff.mpr ⟨l, ⟨rfl, hdigits, hapart⟩, hne, rfl⟩, ?_,
    hrest, ?_⟩
  · rw [String.toList_ofList]
    exact checked_eq_some_iff.mpr hvalue
  · -- A word that begins with a digit is none of the two.
    rcases List.exists_cons_of_ne_nil hne with ⟨c, l, rfl⟩
    have hc := hdigits c List.mem_cons_self
    have hspans := (spans_takeWhile isWordChar (l ++ rest)).cons (isWordChar_of_isDigit hc)
    have hletters : ∀ w ∈ ["true", "false"], w.toList.any Char.isDigit = false := by decide
    refine fails_boolean hspans fun w hw heq => ?_
    exact List.any_eq_false.mp (hletters w hw) c (heq ▸ List.mem_cons_self) hc

/-- Where a sign stands, no word and no number is taken. -/
theorem fails_words (size : Nat) {c : Char} (hc : isWordChar c = false) (r : List Char) :
    grammar.Fails size false (.rule .boolean) (c :: r) ∧
      grammar.Fails size false (.rule .int) (c :: r) ∧
      grammar.Fails size false (.rule .ident) (c :: r) := by
  have hspans : Spans isWordChar [] (c :: r) (c :: r) := by
    refine ⟨rfl, by simp, ?_⟩
    rintro c' r' ⟨⟩
    exact hc
  refine ⟨fails_boolean hspans (by decide), fails_int ?_, fails_ident hspans ?_⟩
  · intro hdigit
    rw [isWordChar_of_isDigit hdigit] at hc
    cases hc
  · intro h
    rcases h with ⟨⟨c', l, hcons, -⟩, -⟩
    cases hcons

end Words

section Operators

variable {op : BinaryOp} {level : Level}

/-- The rule takes an operator where the next token is one, and fails elsewhere. -/
structure ReadsOperators (size : Nat) (r : Rule) (operator? : Token → Option BinaryOp) : Prop where
  takes {xs : List Char} {t : Token} {ts : List Token} {op : BinaryOp} (hfresh : Fresh xs)
    (h : scan 0 xs = some (t :: ts)) (hop : operator? t = some op) :
    ∃ rest, grammar.Takes size false (.rule r) xs [.node r op.symbol []] rest ∧
      scan 0 rest = some ts
  fails {xs : List Char} {ts : List Token} (h : scan 0 xs = some ts)
    (hts : ∀ t ts', ts = t :: ts' → operator? t = none) :
    grammar.Fails size false (.rule r) xs

theorem firstOf?_operators (hop : op ∈ level.operators) (rest : List Char) :
    firstOf? (level.operators.map BinaryOp.symbol) (op.symbol.toList ++ rest) =
      some op.symbol := by
  cases level <;> simp only [Level.operators, List.mem_cons, List.not_mem_nil, or_false] at hop
  · subst hop
    rfl
  · subst hop
    rfl
  · rcases hop with rfl | rfl <;> rfl
  · rcases hop with rfl | rfl | rfl <;> rfl

theorem joins_of_operator? (h : level.operator? t = some op) (z : Char) : joins t z = false := by
  cases level <;> cases t <;> first | rfl | cases h

theorem readsOperators_level (level : Level) :
    ReadsOperators size level.operatorRule level.operator? where
  takes {xs t ts op} hfresh h hop := by
    rcases exists_lexeme_of_scan hfresh h with ⟨l, rest, rfl, hl, hrest, -⟩
    rcases lexeme_of_operator? hop hl with ⟨hmem, rfl⟩
    exact ⟨rest, (takes_operator_iff level.define_operatorRule).mpr
      ⟨_, firstOf?_operators hmem rest, rfl, rfl⟩, hrest⟩
  fails {xs ts} h hts := by
    refine fails_of_not_takes fun trees rest htakes => ?_
    rcases exists_op_of_takes level.define_operatorRule level.exists_of_mem_symbols htakes with
      ⟨op, hop, rfl, -⟩
    -- The symbol is the lexeme of a token, and that token comes first.
    rcases exists_operator? hop with ⟨t, ht, hlexeme⟩
    rw [scan_lexeme hlexeme (fun z zs _ => joins_of_operator? ht z),
      Option.map_eq_some_iff] at h
    rcases h with ⟨ts', -, rfl⟩
    rw [hts t ts' rfl] at ht
    cases ht

theorem firstOf?_comparisons (hop : Reader.comparisonOp? t = some op)
    (hrest : ∀ z zs, rest = z :: zs → joins t z = false) :
    firstOf? ["==", "!=", "<=", ">=", "<", ">"] (op.symbol.toList ++ rest) = some op.symbol := by
  cases t <;> cases hop <;> first | rfl | skip
  -- Only behind `<` and `>` could a longer operator go on.
  all_goals
    cases rest with
    | nil => rfl
    | cons z zs =>
        have hz : ('=' == z) = false := Bool.beq_comm.trans (hrest z zs rfl)
        simp [firstOf?, List.isPrefixOf, BinaryOp.symbol, hz]

theorem exists_comparison_of_lexeme {l : List Char} (ht : Reader.comparisonOp? t = some op)
    (hl : t.Lexeme l) (h : scan 0 (l ++ rest) = some ts)
    (hrest : ∀ z zs, rest = z :: zs → joins t z = false) :
    ∃ t ts' op', ts = t :: ts' ∧ Reader.comparisonOp? t = some op' := by
  rw [scan_lexeme hl hrest, Option.map_eq_some_iff] at h
  rcases h with ⟨ts', -, rfl⟩
  exact ⟨t, ts', op, rfl, ht⟩

/-- A text that begins with the symbol of a comparison has a comparison as its first token,
    though it may be a longer one. -/
theorem exists_comparison_of_scan (hop : op ∈ comparisons)
    (h : scan 0 (op.symbol.toList ++ rest) = some ts) :
    ∃ t ts' op', ts = t :: ts' ∧ Reader.comparisonOp? t = some op' := by
  rcases exists_comparisonOp? hop with ⟨t, ht, hlexeme⟩
  by_cases hapart : ∀ z zs, rest = z :: zs → joins t z = false
  · exact exists_comparison_of_lexeme ht hlexeme h hapart
  · -- Then the token is `<` or `>`, and an equality sign follows.
    simp only [Classical.not_forall, Bool.not_eq_false] at hapart
    rcases hapart with ⟨z, zs, rfl, hz⟩
    cases t <;> cases ht <;> first | cases hz | skip
    · cases eq_of_beq hz
      exact exists_comparison_of_lexeme (t := .lessEq) (l := ['<', '=']) rfl rfl h
        fun _ _ _ => rfl
    · cases eq_of_beq hz
      exact exists_comparison_of_lexeme (t := .greaterEq) (l := ['>', '=']) rfl rfl h
        fun _ _ _ => rfl

theorem readsOperators_comparison : ReadsOperators size .cmpOp Reader.comparisonOp? where
  takes {xs t ts op} hfresh h hop := by
    rcases exists_lexeme_of_scan hfresh h with ⟨l, rest, rfl, hl, hrest, hapart⟩
    rcases lexeme_of_comparisonOp? hop hl with ⟨hmem, rfl⟩
    exact ⟨rest, (takes_operator_iff rfl).mpr
      ⟨_, firstOf?_comparisons hop hapart, rfl, rfl⟩, hrest⟩
  fails {xs ts} h hts := by
    refine fails_of_not_takes fun trees rest htakes => ?_
    rcases exists_op_of_takes rfl exists_of_mem_comparisons htakes with ⟨op, hop, rfl, -⟩
    rcases exists_comparison_of_scan hop h with ⟨t, ts', op', rfl, ht⟩
    rw [hts t ts' rfl] at ht
    cases ht

end Operators

section Signs

theorem exists_takes_unaryOp {s : String} (hs : (t = .bang ∧ s = "!") ∨ (t = .minus ∧ s = "-"))
    (hfresh : Fresh xs) (h : scan 0 xs = some (t :: ts)) :
    ∃ rest, grammar.Takes size false (.rule .unaryOp) xs [.node .unaryOp s []] rest ∧
      scan 0 rest = some ts := by
  rcases exists_lexeme_of_scan hfresh h with ⟨l, rest, rfl, hl, hrest, -⟩
  rcases hs with ⟨rfl, rfl⟩ | ⟨rfl, rfl⟩
  · cases hl
    exact ⟨rest, (takes_operator_iff rfl).mpr ⟨"!", rfl, rfl, rfl⟩, hrest⟩
  · cases hl
    exact ⟨rest, (takes_operator_iff rfl).mpr ⟨"-", rfl, rfl, rfl⟩, hrest⟩

/-- No sign begins an operand that has none. -/
theorem ne_of_primary {e : Expr} {c : Char} {r : List Char} (h : Derives .primary ts e)
    (hscan : scan 0 (c :: r) = some (ts ++ us)) (hc : isSpace c = false) : c ≠ '!' ∧ c ≠ '-' := by
  have hword : isWordChar c = true → c ≠ '!' ∧ c ≠ '-' := by
    intro hword
    constructor <;> (rintro rfl; exact absurd hword (by decide))
  have hfresh : Fresh (c :: r) := by
    rintro c' r' ⟨⟩
    exact hc
  cases h with
  | bool b =>
      rcases exists_lexeme_of_scan hfresh hscan with ⟨l, rest, hl, hlexeme, -⟩
      cases b <;> cases hlexeme <;> cases hl <;> decide
  | number n =>
      rcases exists_lexeme_of_scan hfresh hscan with ⟨l, rest, hl, ⟨hne, hdigits, -⟩, -⟩
      rcases List.exists_cons_of_ne_nil hne with ⟨d, l, rfl⟩
      cases hl
      exact hword (isWordChar_of_isDigit (hdigits c List.mem_cons_self))
  | ident name =>
      rcases exists_lexeme_of_scan hfresh hscan with ⟨l, rest, hl, ⟨⟨hstart, -⟩, -⟩, -⟩
      rcases hstart with ⟨d, l, rfl, hd, -⟩
      cases hl
      exact hword (isWordChar_of_isWordStart hd)
  | parens hinner =>
      rcases exists_lexeme_of_scan hfresh hscan with ⟨l, rest, hl, hlexeme, -⟩
      cases hlexeme
      cases hl
      decide

theorem fails_unaryOp (h : ∀ c r, xs = c :: r → c ≠ '!' ∧ c ≠ '-') :
    grammar.Fails size false (.rule .unaryOp) xs := by
  refine fails_of_not_takes fun trees rest htakes => ?_
  rcases (takes_operator_iff rfl).mp htakes with ⟨s, hfirst, rfl, -⟩
  have hs : s ∈ ["!", "-"] := (of_firstOf?_eq_some hfirst).1
  simp only [List.mem_cons, List.not_mem_nil, or_false] at hs
  rcases hs with rfl | rfl
  · exact (h '!' rest rfl).1 rfl
  · exact (h '-' rest rfl).2 rfl

end Signs

section Parts

variable {e : Expr} {level : Level}

/-- The rule takes what builds the expression, and leaves the tokens that follow. -/
def Accepts (size : Nat) (r : Rule) (xs : List Char) (us : List Token) (e : Expr) : Prop :=
  ∃ tree rest, grammar.Takes size false (.rule r) xs [tree] rest ∧ build tree = some e ∧
    scan 0 rest = some us

/-- The rounds of a repetition, each with the space in front of it. -/
def rounds (a : Exp Rule) : Exp Rule :=
  .many (.cat .space a)

/-- An operator of a level and what stands to its right. -/
def operation (level : Level) : Exp Rule :=
  .seq (.rule level.operatorRule) (.rule level.operandRule)

/-- A part of an expression is taken from the front of a text. What is read in rounds, the rest
    of a chain and the signs of an operand, may have space at the front. -/
def AcceptsPart (size : Nat) (xs : List Char) (us : List Token) (e : Expr) : Part → Prop
  | .chained level => Fresh xs → Accepts size level.rule xs us e
  | .after level left => ∃ trees rest,
      grammar.Takes size false (rounds (operation level)) xs trees rest ∧
      buildChainFrom left trees = some e ∧ scan 0 rest = some us
  | .comparison => Fresh xs → Accepts size .cmpExpr xs us e
  | .signed => ∃ trees mid sp mid' tree rest,
      grammar.Takes size false (rounds (.rule .unaryOp)) xs trees mid ∧
      Spans isSpace sp mid mid' ∧ grammar.Takes size false (.rule .primary) mid' [tree] rest ∧
      (∀ before, buildSigned before none (trees ++ [tree]) = some (before.foldr .unary e)) ∧
      scan 0 rest = some us
  | .primary => Fresh xs → Accepts size .primary xs us e

/-- A round that is taken, behind space. -/
theorem takes_rounds_cons {a : Exp Rule} {sp xs' mid : List Char}
    {ts us : List (ParseTree Rule)} (hsp : Spans isSpace sp xs xs')
    (hts : grammar.Takes size false a xs' ts mid)
    (hus : grammar.Takes size false (rounds a) mid us rest) :
    grammar.Takes size false (rounds a) xs (ts ++ us) rest := by
  refine takes_many_iff.mpr (Or.inr ⟨ts, mid, us, ?_, hus, rfl⟩)
  exact takes_cat_iff.mpr ⟨[], xs', ts, takes_space_iff.mpr ⟨rfl, sp, hsp⟩, hts, rfl⟩

/-- A round that fails gives back the space in front of it. -/
theorem takes_rounds_nil {a : Exp Rule} {sp xs' : List Char} (hsp : Spans isSpace sp xs xs')
    (hfails : grammar.Fails size false a xs') : grammar.Takes size false (rounds a) xs [] xs := by
  refine takes_many_iff.mpr (Or.inl ⟨?_, rfl, rfl⟩)
  exact fails_cat_iff.mpr (Or.inr ⟨[], xs', takes_space_iff.mpr ⟨rfl, sp, hsp⟩, hfails⟩)

theorem fails_seq_of_left {a b : Exp Rule} (h : grammar.Fails size false a xs) :
    grammar.Fails size false (.seq a b) xs :=
  fails_cat_iff.mpr (Or.inl h)

/-- Signs and an operand are taken together as one rule. -/
theorem accepts_unary (hfresh : Fresh xs) (h : AcceptsPart size xs us e .signed) :
    Accepts size .unary xs us e := by
  rcases h with ⟨trees, mid, sp, mid', tree, rest, hsigns, hsp, hoperand, hbuild, hrest⟩
  have hbody : grammar.Takes size false (.seq (.star (.rule .unaryOp)) (.rule .primary)) xs
      (trees ++ [tree]) rest := takes_seq_space_iff.mpr
    ⟨trees, mid, sp, mid', [tree], takes_star_of_many hfresh.takes_space hsigns, hsp, hoperand,
      rfl⟩
  rcases exists_takes_normal (r := .unary) rfl hbody with ⟨text, htakes⟩
  refine ⟨_, rest, htakes, ?_, hrest⟩
  rw [build]
  exact hbuild []

theorem accepts_operand (hfresh : Fresh xs) (h : AcceptsPart size xs us e level.operand) :
    Accepts size level.operandRule xs us e := by
  cases level with
  | disjunction => exact h hfresh
  | conjunction => exact h hfresh
  | sum => exact h hfresh
  | product => exact accepts_unary hfresh h

/-- An operator and the operand to its right, which is taken when the operator is. -/
theorem exists_takes_operation {r operand : Rule} {operator? : Token → Option BinaryOp}
    {op : BinaryOp} {right : Expr} (hr : ReadsOperators size r operator?) (hfresh : Fresh xs)
    (h : scan 0 xs = some (t :: ts)) (hop : operator? t = some op)
    (hright : ∀ ys, Fresh ys → scan 0 ys = some ts → Accepts size operand ys us right) :
    ∃ tree rest, grammar.Takes size false (.seq (.rule r) (.rule operand)) xs
        [.node r op.symbol [], tree] rest ∧ build tree = some right ∧ scan 0 rest = some us := by
  rcases hr.takes hfresh h hop with ⟨mid, htakes, hmid⟩
  rcases exists_behind htakes hmid with ⟨ys, hfresh', hys, hbehind⟩
  rcases hright ys hfresh' hys with ⟨tree, rest, hoperand, hbuild, hrest⟩
  exact ⟨tree, rest, hbehind.takes hoperand, hbuild, hrest⟩

/-- A sign in front of signs and an operand. -/
theorem acceptsPart_signed_cons {s : String} {sign : UnaryOp}
    (hs : (t = .bang ∧ s = "!" ∧ sign = .not) ∨ (t = .minus ∧ s = "-" ∧ sign = .neg))
    (h : scan 0 xs = some (t :: ts))
    (hrest : ∀ ys, scan 0 ys = some ts → AcceptsPart size ys us e .signed) :
    AcceptsPart size xs us (.unary sign e) .signed := by
  rcases exists_fresh h with ⟨sp, xs', hsp, hfresh, hxs'⟩
  have hs' : (t = .bang ∧ s = "!") ∨ (t = .minus ∧ s = "-") := by
    rcases hs with ⟨ht, hs, -⟩ | ⟨ht, hs, -⟩
    · exact Or.inl ⟨ht, hs⟩
    · exact Or.inr ⟨ht, hs⟩
  rcases exists_takes_unaryOp hs' hfresh hxs' with ⟨ys, htakes, hys⟩
  rcases hrest ys hys with ⟨trees, mid, sp', mid', tree, rest, hsigns, hsp', hoperand, hbuild, hend⟩
  refine ⟨_ :: trees, mid, sp', mid', tree, rest, takes_rounds_cons hsp htakes hsigns, hsp',
    hoperand, fun before => ?_, hend⟩
  have hsign : (if s = "!" then UnaryOp.not else UnaryOp.neg) = sign := by
    rcases hs with ⟨-, rfl, rfl⟩ | ⟨-, rfl, rfl⟩ <;> rfl
  rw [List.cons_append, buildSigned, ParseTree.rule, if_pos rfl, ParseTree.text, hsign, hbuild,
    List.foldr_append]
  rfl

theorem accepts_chain {left : Expr} (hfirst : Accepts size level.operandRule xs ts left)
    (hothers : ∀ ys, scan 0 ys = some ts → AcceptsPart size ys us e (.after level left)) :
    Accepts size level.rule xs us e := by
  rcases hfirst with ⟨tree, mid, htakes, hbuild, hmid⟩
  rcases exists_behind htakes hmid with ⟨ys, hfresh, hys, hbehind⟩
  rcases hothers ys hys with ⟨trees, rest, hrounds, hbuild', hrest⟩
  have hbody : grammar.Takes size false (chain level.operandRule level.operatorRule) xs
      ([tree] ++ trees) rest :=
    hbehind.takes (takes_star_of_many hfresh.takes_space hrounds)
  rcases exists_takes_normal level.define_rule hbody with ⟨text, htakes⟩
  refine ⟨_, rest, htakes, ?_, hrest⟩
  rw [build_chain, List.singleton_append, buildChain_cons, hbuild, Option.bind_some, hbuild']

theorem accepts_uncompared (hsum : Accepts size .sum xs us e)
    (hus : ∀ t ts, us = t :: ts → Reader.comparisonOp? t = none) :
    Accepts size .cmpExpr xs us e := by
  rcases hsum with ⟨tree, mid, htakes, hbuild, hmid⟩
  rcases exists_behind htakes hmid with ⟨ys, -, hys, hbehind⟩
  have hnone : grammar.Fails size false (.seq (.rule .cmpOp) (.rule .sum)) ys :=
    fails_seq_of_left (readsOperators_comparison.fails hys hus)
  have hbody := hbehind.takes (takes_opt_iff.mpr (Or.inr ⟨hnone, rfl, rfl⟩))
  rcases exists_takes_normal (r := .cmpExpr) rfl hbody with ⟨text, htakes⟩
  refine ⟨_, ys, htakes, ?_, hys⟩
  rw [build, List.append_nil, buildChain_cons, hbuild, Option.bind_some, buildChainFrom_nil]

theorem accepts_compared {left right : Expr} {op : BinaryOp}
    (hsum : Accepts size .sum xs (t :: ts) left) (hop : Reader.comparisonOp? t = some op)
    (hright : ∀ ys, Fresh ys → scan 0 ys = some ts → Accepts size .sum ys us right) :
    Accepts size .cmpExpr xs us (.binary op left right) := by
  rcases hsum with ⟨tree, mid, htakes, hbuild, hmid⟩
  rcases exists_behind htakes hmid with ⟨ys, hfresh, hys, hbehind⟩
  rcases exists_takes_operation readsOperators_comparison hfresh hys hop hright with
    ⟨tree', rest, hpair, hbuild', hrest⟩
  have hbody := hbehind.takes (takes_opt_iff.mpr (Or.inl hpair))
  rcases exists_takes_normal (r := .cmpExpr) rfl hbody with ⟨text, htakes⟩
  refine ⟨_, rest, htakes, ?_, hrest⟩
  rw [build, List.singleton_append, buildChain_cons, hbuild, Option.bind_some,
    buildChainFrom_cons, hbuild', Option.bind_some, buildChainFrom_nil]

/-- The operands in the order in which they are tried. -/
theorem takes_primary {trees : List (ParseTree Rule)}
    (h : grammar.Takes size false (.rule .boolean) xs trees rest ∨
      grammar.Fails size false (.rule .boolean) xs ∧
        (grammar.Takes size false (.rule .int) xs trees rest ∨
          grammar.Fails size false (.rule .int) xs ∧
            (grammar.Takes size false (.rule .ident) xs trees rest ∨
              grammar.Fails size false (.rule .ident) xs ∧
                grammar.Takes size false (.seq (.text "(") (.seq (.rule .expr) (.text ")")))
                  xs trees rest))) :
    grammar.Takes size false (.rule .primary) xs trees rest := by
  rw [takes_silent_iff rfl, takes_choice_iff, takes_choice_iff, takes_choice_iff]
  exact h

theorem accepts_bool {b : Bool} (hfresh : Fresh xs) (h : scan 0 xs = some (.bool b :: us)) :
    Accepts size .primary xs us (.literal (.bool b)) := by
  rcases exists_takes_boolean hfresh h with ⟨w, rest, htakes, hw, hrest⟩
  refine ⟨_, rest, takes_primary (Or.inl htakes), ?_, hrest⟩
  rw [build, hw]

theorem accepts_number {n : Int64} (hfresh : Fresh xs) (h : scan 0 xs = some (.number n :: us)) :
    Accepts size .primary xs us (.literal (.int n)) := by
  rcases exists_takes_int hfresh h with ⟨text, rest, htakes, hvalue, hrest, hboolean⟩
  refine ⟨_, rest, takes_primary (Or.inr ⟨hboolean, Or.inl htakes⟩), ?_, hrest⟩
  rw [build, hvalue, Option.map_some]

theorem accepts_var {name : String} (hfresh : Fresh xs)
    (h : scan 0 xs = some (.ident name :: us)) : Accepts size .primary xs us (.var name) := by
  rcases exists_takes_ident hfresh h with ⟨rest, htakes, hrest, hboolean, hint, -⟩
  refine ⟨_, rest, takes_primary (Or.inr ⟨hboolean, Or.inr ⟨hint, Or.inl htakes⟩⟩), ?_, hrest⟩
  rw [build]

theorem accepts_parens (hfresh : Fresh xs) (h : scan 0 xs = some (.opening :: ts))
    (hinner : ∀ ys, Fresh ys → scan 0 ys = some ts → Accepts size .expr ys (.closing :: us) e) :
    Accepts size .primary xs us e := by
  rcases exists_lexeme_of_scan hfresh h with ⟨l, mid, rfl, hl, hmid, -⟩
  cases hl
  have hopening : grammar.Takes size false (.text "(") ('(' :: mid) [] mid :=
    takes_text_iff.mpr ⟨rfl, rfl⟩
  rcases exists_behind hopening hmid with ⟨ys, hfresh', hys, hbehind⟩
  rcases hinner ys hfresh' hys with ⟨tree, zs, hexpr, hbuild, hzs⟩
  rcases exists_behind hexpr hzs with ⟨zs', hfresh'', hzs', hbehind'⟩
  rcases exists_takes_text (t := .closing) (s := ")") (fun l hl => hl) hfresh'' hzs' with
    ⟨rest, hclosing, hrest⟩
  have hparens := hbehind.takes (hbehind'.takes hclosing)
  -- Words and numbers are tried first.
  rcases fails_words size (c := '(') (by decide) mid with ⟨hboolean, hint, hident⟩
  exact ⟨tree, rest, takes_primary (Or.inr ⟨hboolean, Or.inr ⟨hint, Or.inr ⟨hident, hparens⟩⟩⟩),
    hbuild, hrest⟩

end Parts

/-- What is derivable is taken. The induction is on the derivation. -/
theorem acceptsPart_of_derives {part : Part} {ts : List Token} {e : Expr} (h : Derives part ts e)
    (size : Nat) : ∀ us xs, Ends part.tightness us → scan 0 xs = some (ts ++ us) →
      AcceptsPart size xs us e part := by
  induction h with
  | @chain level ts us left e hfirst hrest ihfirst ihrest =>
      intro vs xs hends hscan hfresh
      rw [List.append_assoc] at hscan
      have hoperand := ihfirst (us ++ vs) xs (ends_operand hrest hends) hscan
      exact accepts_chain (accepts_operand hfresh hoperand) fun ys hys => ihrest vs ys hends hys
  | @done level left =>
      intro vs xs hends hscan
      rcases exists_fresh hscan with ⟨sp, xs', hsp, -, hxs'⟩
      refine ⟨[], xs, takes_rounds_nil hsp (fails_seq_of_left ?_), buildChainFrom_nil left, hscan⟩
      -- What follows ends the level, so it is no operator of it.
      refine (readsOperators_level level).fails hxs' ?_
      rintro t ts' rfl
      exact operator?_eq_none hends
  | @more level token op ts us left right e hop hright hrest ihright ihrest =>
      intro vs xs hends hscan
      rcases exists_fresh hscan with ⟨sp, xs', hsp, hfresh, hxs'⟩
      have hoperand : ∀ ys, Fresh ys → scan 0 ys = some (ts ++ us ++ vs) →
          Accepts size level.operandRule ys (us ++ vs) right := by
        intro ys hfresh hys
        rw [List.append_assoc] at hys
        exact accepts_operand hfresh (ihright (us ++ vs) ys (ends_operand hrest hends) hys)
      rcases exists_takes_operation (readsOperators_level level) hfresh hxs' hop hoperand with
        ⟨tree, mid, htakes, hbuild, hmid⟩
      rcases ihrest vs mid hends hmid with ⟨trees, rest, hrounds, hbuild', hend⟩
      refine ⟨_, rest, takes_rounds_cons hsp htakes hrounds, ?_, hend⟩
      rw [List.cons_append, List.singleton_append, buildChainFrom_cons, hbuild,
        Option.bind_some, hbuild']
  | @uncompared ts e hsum ih =>
      intro vs xs hends hscan hfresh
      refine accepts_uncompared (ih vs xs (hends.mono (by decide)) hscan hfresh) ?_
      rintro t ts' rfl
      exact comparisonOp?_eq_none hends
  | @compared token op ts us left right hop hleft hright ihleft ihright =>
      intro vs xs hends hscan hfresh
      rw [List.append_assoc, List.cons_append] at hscan
      -- A comparison binds less tightly than a sum, and ends it.
      have hleftEnds : Ends (Part.chained .sum).tightness (token :: (us ++ vs)) :=
        ends_cons_of_tightness (tightness?_of_comparisonOp? hop) (by decide)
      refine accepts_compared (ihleft _ xs hleftEnds hscan hfresh) hop fun ys hfresh' hys => ?_
      exact ihright vs ys (hends.mono (by decide)) hys hfresh'
  | @not ts e hoperand ih =>
      intro vs xs hends hscan
      exact acceptsPart_signed_cons (Or.inl ⟨rfl, rfl, rfl⟩) hscan fun ys hys => ih vs ys hends hys
  | @neg ts e hoperand ih =>
      intro vs xs hends hscan
      exact acceptsPart_signed_cons (Or.inr ⟨rfl, rfl, rfl⟩) hscan fun ys hys => ih vs ys hends hys
  | @unsigned ts e hprimary ih =>
      intro vs xs hends hscan
      rcases exists_fresh hscan with ⟨sp, xs', hsp, hfresh, hxs'⟩
      rcases ih vs xs' hends hxs' hfresh with ⟨tree, rest, htakes, hbuild, hrest⟩
      -- The round that finds no more sign gives its space back, and it is read again.
      have hnone : grammar.Fails size false (.rule .unaryOp) xs' := by
        refine fails_unaryOp ?_
        rintro c r rfl
        exact ne_of_primary hprimary hxs' (hfresh c r rfl)
      have htree := rule_ne_unaryOp_of_primary htakes tree List.mem_cons_self
      refine ⟨[], xs, sp, xs', tree, rest, takes_rounds_nil hsp hnone, hsp, htakes, ?_, hrest⟩
      intro before
      rw [List.nil_append, buildSigned, if_neg htree, hbuild]
      simp only [buildSigned, Option.map_some]
  | bool b =>
      intro vs xs hends hscan hfresh
      exact accepts_bool hfresh hscan
  | number n =>
      intro vs xs hends hscan hfresh
      exact accepts_number hfresh hscan
  | ident name =>
      intro vs xs hends hscan hfresh
      exact accepts_var hfresh hscan
  | @parens ts e hinner ih =>
      intro vs xs hends hscan hfresh
      rw [List.cons_append, List.append_assoc] at hscan
      refine accepts_parens hfresh hscan fun ys hfresh' hys => ?_
      exact ih _ ys (ends_cons_of_none rfl) hys hfresh'

end Dialect

end Script

end Interleaving
