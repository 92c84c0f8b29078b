import Interleaving.Proofs.Script.Dialect.Words
import Interleaving.Proofs.Script.Language

/-!
# What the Dialect Takes Is Written So

Where a rule of the dialect takes something and an expression can be built from its tree, the
text that was taken is a text of that expression, followed by space. The order in which
alternatives are tried does not matter for this, nor that repetitions are greedy.

The levels of an expression are gone through from the tightest to the loosest. The tightest
refers to the loosest again, between parentheses, and there the text is shorter. Along the
rounds of a repetition, space that one round has left goes to the beginning of the next; if
there is no other round it stays behind the whole.

## Main definitions

* `Dialect.Covers`: What was taken, up to space behind it.
* `Dialect.SoundBelow`: A rule takes texts of a part of the grammar.

## Theorems

* `Dialect.ChainRest.round`, `Dialect.chainRest_of_takes_star`: One round of a chain, and all of
  them; signs and statements likewise.
* `Dialect.sound_expr`: What is taken as an expression is written so.
* `Dialect.sound_channel`, `Dialect.sound_statement`: The same for channel operations and
  statements.
-/

namespace Interleaving

namespace Script

section Blanks

theorem Blank.append {b b' : List Char} (hb : Blank b) (hb' : Blank b') : Blank (b ++ b') := by
  intro x hx
  exact (List.mem_append.mp hx).elim (hb x) (hb' x)

open Grammar

/-- Space may stand in front of any part of an expression. -/
theorem Writes.blank_append {part : Part} {b xs : List Char} {e : Expr} (hb : Blank b)
    (h : Writes part xs e) : Writes part (b ++ xs) e := by
  induction h with
  | operand h ih => exact .operand ih
  | chain hop hleft hb' hright ihleft ihright =>
      rw [← List.append_assoc]
      exact .chain hop ihleft hb' hright
  | uncompared h ih => exact .uncompared ih
  | compared hop hleft hb' hright ihleft ihright =>
      rw [← List.append_assoc]
      exact .compared hop ihleft hb' hright
  | not hb' h ih =>
      rw [← List.append_assoc]
      exact .not (hb.append hb') h
  | neg hb' h ih =>
      rw [← List.append_assoc]
      exact .neg (hb.append hb') h
  | unsigned h ih => exact .unsigned ih
  | isTrue hb' =>
      rw [← List.append_assoc]
      exact .isTrue (hb.append hb')
  | isFalse hb' =>
      rw [← List.append_assoc]
      exact .isFalse (hb.append hb')
  | number hb' h =>
      rw [← List.append_assoc]
      exact .number (hb.append hb') h
  | var hb' h =>
      rw [← List.append_assoc]
      exact .var (hb.append hb') h
  | parens hb' h hb'' ih =>
      rw [← List.append_assoc]
      exact .parens (hb.append hb') h hb''

theorem WritesOp.blank_append {b xs : List Char} {op : ChannelOp} (hb : Blank b)
    (h : WritesOp xs op) : WritesOp (b ++ xs) op := by
  cases h with
  | send hb' hname hb'' hvalue =>
      rw [← List.append_assoc]
      exact .send (hb.append hb') hname hb'' hvalue
  | receive hb' hname hb'' hb''' htarget =>
      rw [← List.append_assoc]
      exact .receive (hb.append hb') hname hb'' hb''' htarget

theorem WritesStatement.blank_append {b xs : List Char} {s : Statement} (hb : Blank b)
    (h : WritesStatement xs s) : WritesStatement (b ++ xs) s := by
  cases h with
  | skip hb' =>
      rw [← List.append_assoc]
      exact .skip (hb.append hb')
  | assign hb' hname hb'' hvalue =>
      rw [← List.append_assoc]
      exact .assign (hb.append hb') hname hb'' hvalue

end Blanks

theorem BinaryOp.ofSymbol?_symbol (op : BinaryOp) : ofSymbol? op.symbol = some op := by
  cases op with
  | compare comparison => cases comparison <;> rfl
  | arith operation => cases operation <;> rfl
  | _ => rfl

namespace Grammar.Level

open Dialect

/-- The rule for a chain of operators. -/
def rule : Level → Rule
  | disjunction => .expr
  | conjunction => .andExpr
  | sum => .sum
  | product => .product

def operandRule : Level → Rule
  | disjunction => .andExpr
  | conjunction => .cmpExpr
  | sum => .product
  | product => .unary

def operatorRule : Level → Rule
  | disjunction => .orOp
  | conjunction => .andOp
  | sum => .addOp
  | product => .mulOp

theorem define_rule (level : Level) :
    define level.rule = ⟨.normal, chain level.operandRule level.operatorRule⟩ := by
  cases level <;> rfl

theorem define_operatorRule (level : Level) :
    define level.operatorRule = ⟨.normal, .oneOf (level.operators.map BinaryOp.symbol)⟩ := by
  cases level <;> rfl

theorem exists_of_mem_symbols (level : Level) :
    ∀ s ∈ level.operators.map BinaryOp.symbol, ∃ op ∈ level.operators, s = op.symbol := by
  intro s hs
  rcases List.mem_map.mp hs with ⟨op, hop, rfl⟩
  exact ⟨op, hop, rfl⟩

end Grammar.Level

namespace Dialect

open Peg Peg.Grammar Script.Grammar

variable {size : Nat} {xs rest : List Char} {trees : List (ParseTree Rule)}

theorem Spans.blank {b : List Char} (h : Spans isSpace b xs rest) : Blank b :=
  h.all

/-- The text before `rest` is `zs` with space behind it. -/
def Covers (xs rest zs : List Char) : Prop :=
  ∃ b, Blank b ∧ xs = zs ++ (b ++ rest)

/-- On texts of less than `n` characters, the rule leaves one tree, and what it takes is a
    text of every expression that is built from the tree. -/
def SoundBelow (size n : Nat) (r : Rule) (part : Part) : Prop :=
  ∀ xs trees rest, xs.length < n → grammar.Takes size false (.rule r) xs trees rest →
    ∃ tree zs, trees = [tree] ∧ Covers xs rest zs ∧ ∀ e, build tree = some e → Writes part zs e

theorem build_chain (level : Level) (text : String) (inner : List (ParseTree Rule)) :
    build (.node level.rule text inner) = buildChain inner := by
  cases level <;> rw [Level.rule, build]

theorem buildChain_cons (tree : ParseTree Rule) (others : List (ParseTree Rule)) :
    buildChain (tree :: others) = (build tree).bind fun left => buildChainFrom left others := by
  rw [buildChain]
  cases build tree <;> rfl

theorem buildChainFrom_nil (left : Expr) : buildChainFrom left [] = some left := by
  rw [buildChainFrom]

theorem buildChainFrom_cons (left : Expr) (op : BinaryOp) (r : Rule)
    (inner : List (ParseTree Rule)) (tree : ParseTree Rule) (others : List (ParseTree Rule)) :
    buildChainFrom left (.node r op.symbol inner :: tree :: others) =
      (build tree).bind fun right => buildChainFrom (.binary op left right) others := by
  rw [buildChainFrom, ParseTree.text, BinaryOp.ofSymbol?_symbol]
  cases build tree <;> rfl

section Operators

variable {n : Nat} {ops : List BinaryOp} {part : Part} {operator operand : Rule}

/-- What an operator takes is its symbol. -/
theorem exists_op_of_takes {symbols : List String}
    (hr : define operator = ⟨.normal, .oneOf symbols⟩)
    (hsymbols : ∀ s ∈ symbols, ∃ op ∈ ops, s = op.symbol)
    (h : grammar.Takes size false (.rule operator) xs trees rest) :
    ∃ op ∈ ops, xs = op.symbol.toList ++ rest ∧ trees = [.node operator op.symbol []] := by
  rcases (takes_operator_iff hr).mp h with ⟨s, hfirst, hxs, htrees⟩
  rcases hsymbols s (of_firstOf?_eq_some hfirst).1 with ⟨op, hop, rfl⟩
  exact ⟨op, hop, hxs, htrees⟩

/-- An operator and what stands to its right. -/
theorem exists_of_takes_pair {symbols : List String}
    (hr : define operator = ⟨.normal, .oneOf symbols⟩)
    (hsymbols : ∀ s ∈ symbols, ∃ op ∈ ops, s = op.symbol)
    (hoperand : SoundBelow size n operand part) (hlength : xs.length < n)
    (h : grammar.Takes size false (.seq (.rule operator) (.rule operand)) xs trees rest) :
    ∃ op ∈ ops, ∃ tree ys, trees = [.node operator op.symbol [], tree] ∧
      Covers xs rest (op.symbol.toList ++ ys) ∧ ∀ e, build tree = some e → Writes part ys e := by
  rcases takes_seq_space_iff.mp h with ⟨ts, mid, sp, mid', us, hop, hsp, hright, rfl⟩
  rcases exists_op_of_takes hr hsymbols hop with ⟨op, hmem, rfl, rfl⟩
  have hmid := hsp.length_le
  rw [List.length_append] at hlength
  rcases hoperand mid' us rest (by omega) hright with ⟨tree, zs, rfl, ⟨b, hb, rfl⟩, hwrites⟩
  refine ⟨op, hmem, tree, sp ++ zs, rfl, ⟨b, hb, ?_⟩, fun e he => ?_⟩
  · rw [hsp.eq_append]
    simp only [List.append_assoc]
  · exact (hwrites e he).blank_append hsp.blank

end Operators

section Chains

variable {n : Nat} {level : Level} {mid : List Char} {ts us : List (ParseTree Rule)}

/-- What follows the beginning of a chain, with space in front of it. -/
def ChainRest (level : Level) (xs : List Char) (trees : List (ParseTree Rule))
    (rest : List Char) : Prop :=
  ∀ b, Blank b → ∃ zs, Covers (b ++ xs) rest zs ∧ ∀ ys left e, Writes (.chained level) ys left →
    buildChainFrom left trees = some e → Writes (.chained level) (ys ++ zs) e

theorem chainRest_nil (level : Level) (xs : List Char) : ChainRest level xs [] xs := by
  intro b hb
  refine ⟨[], ⟨b, hb, rfl⟩, fun ys left e hleft he => ?_⟩
  rw [buildChainFrom_nil] at he
  cases he
  rwa [List.append_nil]

theorem ChainRest.space {sp xs' : List Char} (hsp : Spans isSpace sp xs xs')
    (h : ChainRest level xs' trees rest) : ChainRest level xs trees rest := by
  intro b hb
  rw [hsp.eq_append, ← List.append_assoc]
  exact h (b ++ sp) (hb.append hsp.blank)

/-- One more operator at the beginning. The space it leaves behind goes to what follows. -/
theorem ChainRest.round (hoperand : SoundBelow size n level.operandRule level.operand)
    (hlength : xs.length < n)
    (hts : grammar.Takes size false (.seq (.rule level.operatorRule) (.rule level.operandRule))
      xs ts mid)
    (h : ChainRest level mid us rest) : ChainRest level xs (ts ++ us) rest := by
  intro b hb
  rcases exists_of_takes_pair level.define_operatorRule level.exists_of_mem_symbols hoperand
    hlength hts with ⟨op, hop, tree, ys, rfl, ⟨b', hb', rfl⟩, hright⟩
  rcases h b' hb' with ⟨zs, ⟨b'', hb'', hmid⟩, hwrites⟩
  refine ⟨b ++ (op.symbol.toList ++ ys) ++ zs, ⟨b'', hb'', ?_⟩, fun ws left e hleft he => ?_⟩
  · rw [hmid]
    simp only [List.append_assoc]
  · rw [List.cons_append, List.singleton_append, buildChainFrom_cons,
      Option.bind_eq_some_iff] at he
    rcases he with ⟨right, htree, he⟩
    have hall := hwrites _ _ e (.chain hop hleft hb (hright right htree)) he
    rwa [List.append_assoc] at hall

theorem chainRest_of_takes_star (hoperand : SoundBelow size n level.operandRule level.operand)
    (h : grammar.Takes size false
      (.star (.seq (.rule level.operatorRule) (.rule level.operandRule))) xs trees rest) :
    xs.length < n → ChainRest level xs trees rest := by
  refine takes_star_induction
    (motive := fun xs trees rest => xs.length < n → ChainRest level xs trees rest)
    ?_ ?_ ?_ ?_ ?_ h
  · cases level <;> decide
  · cases level <;> decide
  · intro xs _
    exact chainRest_nil level xs
  · intro xs sp xs' us rest hsp h hlength
    exact (h (Nat.lt_of_le_of_lt hsp.length_le hlength)).space hsp
  · intro xs ts mid us rest hts hmid h hlength
    exact (h (Nat.lt_trans hmid hlength)).round hoperand hlength hts

theorem sound_chain (level : Level) (hoperand : SoundBelow size n level.operandRule level.operand) :
    SoundBelow size n level.rule (.chained level) := by
  intro xs trees rest hlength h
  rcases exists_of_takes_normal level.define_rule h with ⟨text, inner, hbody, rfl⟩
  rcases takes_seq_space_iff.mp hbody with ⟨ts, mid, sp, mid', us, hfirst, hsp, hothers, rfl⟩
  rcases hoperand xs ts mid hlength hfirst with ⟨tree, zs, rfl, ⟨b, hb, rfl⟩, hwrites⟩
  have hmid := hsp.length_le
  simp only [List.length_append] at hlength
  have hrest : ChainRest level mid' us rest :=
    chainRest_of_takes_star hoperand hothers (by omega)
  rcases hrest.space hsp b hb with ⟨ys, ⟨b', hb', hys⟩, hmore⟩
  refine ⟨_, zs ++ ys, rfl, ⟨b', hb', ?_⟩, fun e he => ?_⟩
  · rw [hys, List.append_assoc]
  · rw [build_chain, List.singleton_append, buildChain_cons, Option.bind_eq_some_iff] at he
    rcases he with ⟨left, hleft, he⟩
    exact hmore zs left e (.operand (hwrites left hleft)) he

end Chains

section Levels

variable {n : Nat}

theorem exists_of_mem_comparisons : ∀ s ∈ ["==", "!=", "<=", ">=", "<", ">"],
    ∃ op ∈ comparisons, s = op.symbol := by
  decide

/-- One comparison at most, so there is no induction. -/
theorem sound_comparison (hsum : SoundBelow size n .sum (.chained .sum)) :
    SoundBelow size n .cmpExpr .comparison := by
  intro xs trees rest hlength h
  rcases exists_of_takes_normal rfl h with ⟨text, inner, hbody, rfl⟩
  rcases takes_seq_space_iff.mp hbody with ⟨ts, mid, sp, mid', us, hfirst, hsp, hothers, rfl⟩
  rcases hsum xs ts mid hlength hfirst with ⟨tree, zs, rfl, ⟨b, hb, rfl⟩, hwrites⟩
  have hmid := hsp.length_le
  simp only [List.length_append] at hlength
  rcases takes_opt_iff.mp hothers with hpair | ⟨-, rfl, rfl⟩
  · rcases exists_of_takes_pair rfl exists_of_mem_comparisons hsum (by omega) hpair
      with ⟨op, hop, tree', ys, rfl, ⟨b', hb', rfl⟩, hright⟩
    refine ⟨_, zs ++ (b ++ sp ++ (op.symbol.toList ++ ys)), rfl, ⟨b', hb', ?_⟩,
      fun e he => ?_⟩
    · rw [hsp.eq_append]
      simp only [List.append_assoc]
    · rw [build, List.singleton_append, buildChain_cons, Option.bind_eq_some_iff] at he
      rcases he with ⟨left, hleft, he⟩
      rw [buildChainFrom_cons, Option.bind_eq_some_iff] at he
      rcases he with ⟨right, htree, he⟩
      rw [buildChainFrom_nil] at he
      cases he
      exact .compared hop (hwrites left hleft) (hb.append hsp.blank) (hright right htree)
  · -- Nothing follows the space that was read, so it stays behind the whole.
    refine ⟨_, zs, rfl, ⟨b ++ sp, hb.append hsp.blank, ?_⟩, fun e he => ?_⟩
    · rw [hsp.eq_append, List.append_assoc]
    · rw [build, List.singleton_append, buildChain_cons, Option.bind_eq_some_iff] at he
      rcases he with ⟨left, hleft, he⟩
      rw [buildChainFrom_nil] at he
      cases he
      exact .uncompared (hwrites _ hleft)

/-- Signs in front of an operand: the space before each, and what they make of the operand. -/
def SignsRest (xs : List Char) (trees : List (ParseTree Rule)) (rest : List Char) : Prop :=
  ∃ zs signs, xs = zs ++ rest ∧
    (∀ before tree, tree.rule ≠ .unaryOp → buildSigned before none (trees ++ [tree]) =
      (build tree).map fun e => (before ++ signs).foldr .unary e) ∧
    ∀ ys e, Writes .signed ys e → Writes .signed (zs ++ ys) (signs.foldr .unary e)

theorem signsRest_nil (xs : List Char) : SignsRest xs [] xs := by
  refine ⟨[], [], rfl, fun before tree htree => ?_, fun ys e h => h⟩
  rw [List.nil_append, buildSigned, if_neg htree, List.append_nil]
  cases build tree with
  | none => rfl
  | some e => simp only [buildSigned, Option.map_some]

theorem SignsRest.space {sp xs' : List Char} (hsp : Spans isSpace sp xs xs')
    (h : SignsRest xs' trees rest) : SignsRest xs trees rest := by
  rcases h with ⟨zs, signs, rfl, hbuild, hwrites⟩
  refine ⟨sp ++ zs, signs, ?_, hbuild, fun ys e h => ?_⟩
  · rw [hsp.eq_append, List.append_assoc]
  · rw [List.append_assoc]
    exact (hwrites ys e h).blank_append hsp.blank

theorem SignsRest.round {ts us : List (ParseTree Rule)} {mid : List Char}
    (hts : grammar.Takes size false (.rule .unaryOp) xs ts mid) (h : SignsRest mid us rest) :
    SignsRest xs (ts ++ us) rest := by
  rcases (takes_operator_iff rfl).mp hts with ⟨s, hfirst, rfl, rfl⟩
  have hs : s ∈ ["!", "-"] := (of_firstOf?_eq_some hfirst).1
  rcases h with ⟨zs, signs, rfl, hbuild, hwrites⟩
  refine ⟨s.toList ++ zs, (if s = "!" then .not else .neg) :: signs, ?_, ?_, ?_⟩
  · rw [List.append_assoc]
  · intro before tree htree
    rw [List.singleton_append, List.cons_append, buildSigned, ParseTree.rule, if_pos rfl,
      hbuild _ tree htree, ParseTree.text, List.append_assoc, List.singleton_append]
  · -- The new sign is the outermost one.
    intro ys e h
    have hrest := hwrites ys e h
    simp only [List.mem_cons, List.not_mem_nil, or_false] at hs
    rw [List.append_assoc]
    rcases hs with rfl | rfl
    · exact .not blank_nil hrest
    · exact .neg blank_nil hrest

theorem signsRest_of_takes_star
    (h : grammar.Takes size false (.star (.rule .unaryOp)) xs trees rest) :
    SignsRest xs trees rest := by
  refine takes_star_induction (by decide) (by decide) signsRest_nil ?_ ?_ h
  · intro xs sp xs' us rest hsp h
    exact h.space hsp
  · intro xs ts mid us rest hts _ h
    exact h.round hts

/-- The four kinds of operands. -/
theorem cases_of_takes_primary (h : grammar.Takes size false (.rule .primary) xs trees rest) :
    grammar.Takes size false (.rule .boolean) xs trees rest ∨
      grammar.Takes size false (.rule .int) xs trees rest ∨
      grammar.Takes size false (.rule .ident) xs trees rest ∨
      ∃ sp ys mid sp', Blank sp ∧ Blank sp' ∧ xs = "(".toList ++ (sp ++ ys) ∧
        mid = sp' ++ (")".toList ++ rest) ∧
        grammar.Takes size false (.rule .expr) ys trees mid := by
  rcases takes_choice_iff.mp ((takes_silent_iff rfl).mp h) with hboolean | ⟨-, hother⟩
  · exact Or.inl hboolean
  rcases takes_choice_iff.mp hother with hint | ⟨-, hother⟩
  · exact Or.inr (Or.inl hint)
  rcases takes_choice_iff.mp hother with hident | ⟨-, hparens⟩
  · exact Or.inr (Or.inr (Or.inl hident))
  rcases takes_seq_space_iff.mp hparens with ⟨ts, xs', sp, ys, us, hopening, hsp, hinner, rfl⟩
  rcases takes_text_iff.mp hopening with ⟨rfl, rfl⟩
  rcases takes_seq_space_iff.mp hinner with ⟨ts, mid, sp', mid', us, hexpr, hsp', hclosing, rfl⟩
  rcases takes_text_iff.mp hclosing with ⟨rfl, rfl⟩
  refine Or.inr (Or.inr (Or.inr ⟨sp, ys, mid, sp', hsp.blank, hsp'.blank, ?_,
    hsp'.eq_append, ?_⟩))
  · rw [hsp.eq_append]
  · rw [List.nil_append, List.append_nil]
    exact hexpr

theorem sound_primary (hexpr : SoundBelow size n .expr (.chained .disjunction)) :
    SoundBelow size (n + 1) .primary .primary := by
  intro xs trees rest hlength h
  rcases cases_of_takes_primary h with
    hboolean | hint | hident | ⟨sp, ys, mid, sp', hsp, hsp', rfl, rfl, hinner⟩
  · rcases takes_boolean_iff.mp hboolean with ⟨w, hw, hspans, rfl⟩
    refine ⟨_, w.toList, rfl, ⟨[], blank_nil, hspans.eq_append⟩, fun e he => ?_⟩
    rw [build] at he
    cases he
    simp only [List.mem_cons, List.not_mem_nil, or_false] at hw
    rcases hw with rfl | rfl
    · exact .isTrue blank_nil
    · exact .isFalse blank_nil
  · rcases takes_int_iff.mp hint with ⟨l, hspans, hl, rfl⟩
    refine ⟨_, l, rfl, ⟨[], blank_nil, hspans.eq_append⟩, fun e he => ?_⟩
    rw [build, String.toList_ofList, Option.map_eq_some_iff] at he
    rcases he with ⟨k, hk, rfl⟩
    exact .number blank_nil ⟨hl, hspans.all, checked_eq_some_iff.mp hk⟩
  · rcases takes_ident_iff.mp hident with ⟨l, hspans, hname, rfl⟩
    refine ⟨_, l, rfl, ⟨[], blank_nil, hspans.eq_append⟩, fun e he => ?_⟩
    rw [build] at he
    cases he
    exact .var blank_nil hname
  · -- Behind the parenthesis the text is shorter.
    rw [List.length_append, List.length_append] at hlength
    have hopening : "(".toList.length = 1 := rfl
    rcases hexpr ys trees _ (by omega) hinner with ⟨tree, zs, rfl, ⟨b, hb, rfl⟩, hwrites⟩
    refine ⟨tree, "(".toList ++ (sp ++ zs ++ (b ++ sp' ++ ")".toList)), rfl,
      ⟨[], blank_nil, ?_⟩, fun e he => ?_⟩
    · simp only [List.append_assoc, List.nil_append]
    · exact .parens blank_nil ((hwrites e he).blank_append hsp) (hb.append hsp')

theorem rule_ne_unaryOp_of_primary
    (h : grammar.Takes size false (.rule .primary) xs trees rest) :
    ∀ tree ∈ trees, tree.rule ≠ .unaryOp := by
  have hleaf : ∀ {r : Rule} {text : String}, r ≠ .unaryOp → trees = [.node r text []] →
      ∀ tree ∈ trees, tree.rule ≠ .unaryOp := by
    rintro r text hr rfl tree htree
    rw [List.mem_singleton.mp htree]
    exact hr
  rcases cases_of_takes_primary h with
    hboolean | hint | hident | ⟨sp, ys, mid, sp', -, -, -, -, hinner⟩
  · rcases takes_boolean_iff.mp hboolean with ⟨w, -, -, htrees⟩
    exact hleaf (by decide) htrees
  · rcases takes_int_iff.mp hint with ⟨l, -, -, htrees⟩
    exact hleaf (by decide) htrees
  · rcases takes_ident_iff.mp hident with ⟨l, -, -, htrees⟩
    exact hleaf (by decide) htrees
  · rcases exists_of_takes_normal rfl hinner with ⟨text, inner, -, rfl⟩
    intro tree htree
    rw [List.mem_singleton.mp htree, ParseTree.rule]
    decide

theorem sound_signed (hprimary : SoundBelow size n .primary .primary) :
    SoundBelow size n .unary .signed := by
  intro xs trees rest hlength h
  rcases exists_of_takes_normal rfl h with ⟨text, inner, hbody, rfl⟩
  rcases takes_seq_space_iff.mp hbody with ⟨ts, mid, sp, mid', us, hsigns, hsp, hoperand, rfl⟩
  rcases signsRest_of_takes_star hsigns with ⟨zs, signs, rfl, hbuild, hwrites⟩
  have hmid := hsp.length_le
  rw [List.length_append] at hlength
  rcases hprimary mid' us rest (by omega) hoperand with ⟨tree, ys, rfl, ⟨b, hb, rfl⟩, hys⟩
  refine ⟨_, zs ++ (sp ++ ys), rfl, ⟨b, hb, ?_⟩, fun e he => ?_⟩
  · rw [hsp.eq_append]
    simp only [List.append_assoc]
  · have htree := rule_ne_unaryOp_of_primary hoperand tree List.mem_cons_self
    rw [build, hbuild [] tree htree, List.nil_append, Option.map_eq_some_iff] at he
    rcases he with ⟨e, he, rfl⟩
    exact hwrites _ e (.unsigned ((hys e he).blank_append hsp.blank))

/-- The induction is on the length of the text, and each step goes once through the levels. -/
theorem soundBelow_expr (size n : Nat) : SoundBelow size n .expr (.chained .disjunction) := by
  induction n with
  | zero =>
      intro xs trees rest hlength
      cases hlength
  | succ n ih =>
      have hproduct : SoundBelow size (n + 1) .product (.chained .product) :=
        sound_chain .product (sound_signed (sound_primary ih))
      have hsum : SoundBelow size (n + 1) .sum (.chained .sum) := sound_chain .sum hproduct
      have hconjunction : SoundBelow size (n + 1) .andExpr (.chained .conjunction) :=
        sound_chain .conjunction (sound_comparison hsum)
      exact sound_chain .disjunction hconjunction

end Levels

/-- What is taken as an expression is a text of it. -/
theorem sound_expr (h : grammar.Takes size false (.rule .expr) xs trees rest) :
    ∃ tree zs, trees = [tree] ∧ Covers xs rest zs ∧
      ∀ e, build tree = some e → Writes (.chained .disjunction) zs e :=
  soundBelow_expr size (xs.length + 1) xs trees rest (Nat.lt_succ_self _) h

/-- A name, a sign and what follows them, with the space in between. -/
theorem exists_of_takes_named {s : String} {a : Exp Rule}
    (h : grammar.Takes size false (.seq (.rule .ident) (.seq (.text s) a)) xs trees rest) :
    ∃ l sp sp' ys us, IsName l ∧ Blank sp ∧ Blank sp' ∧
      xs = l ++ (sp ++ (s.toList ++ (sp' ++ ys))) ∧ grammar.Takes size false a ys us rest ∧
      trees = .node .ident (String.ofList l) [] :: us := by
  rcases takes_seq_space_iff.mp h with ⟨ts, mid, sp, mid', us, hname, hsp, hrest, rfl⟩
  rcases takes_ident_iff.mp hname with ⟨l, hspans, hl, rfl⟩
  rcases takes_seq_space_iff.mp hrest with ⟨ts, ys, sp', ys', us, hsign, hsp', ha, rfl⟩
  rcases takes_text_iff.mp hsign with ⟨rfl, rfl⟩
  refine ⟨l, sp, sp', ys', us, hl, hsp.blank, hsp'.blank, ?_, ha, rfl⟩
  rw [hspans.eq_append, hsp.eq_append, hsp'.eq_append]

section Operations

theorem sound_send (h : grammar.Takes size false (.rule .send) xs trees rest) :
    ∃ tree zs, trees = [tree] ∧ Covers xs rest zs ∧
      ∀ op, buildOp tree = some op → WritesOp zs op := by
  rcases exists_of_takes_normal rfl h with ⟨text, inner, hbody, rfl⟩
  rcases exists_of_takes_named hbody with ⟨l, sp, sp', ys, us, hl, hsp, hsp', rfl, hexpr, rfl⟩
  rcases sound_expr hexpr with ⟨tree, zs, rfl, ⟨b, hb, rfl⟩, hwrites⟩
  refine ⟨_, [] ++ (l ++ (sp ++ ("!".toList ++ (sp' ++ zs)))), rfl, ⟨b, hb, ?_⟩,
    fun op hop => ?_⟩
  · simp only [List.append_assoc, List.nil_append]
  · rcases Option.map_eq_some_iff.mp hop with ⟨value, he, rfl⟩
    exact .send blank_nil hl hsp ((hwrites value he).blank_append hsp')

theorem sound_receive (h : grammar.Takes size false (.rule .receive) xs trees rest) :
    ∃ tree zs, trees = [tree] ∧ Covers xs rest zs ∧
      ∀ op, buildOp tree = some op → WritesOp zs op := by
  rcases exists_of_takes_normal rfl h with ⟨text, inner, hbody, rfl⟩
  rcases exists_of_takes_named hbody with ⟨l, sp, sp', ys, us, hl, hsp, hsp', rfl, htarget, rfl⟩
  rcases takes_ident_iff.mp htarget with ⟨l', hspans, hl', rfl⟩
  refine ⟨_, [] ++ (l ++ (sp ++ ("?".toList ++ (sp' ++ l')))), rfl, ⟨[], blank_nil, ?_⟩,
    fun op hop => ?_⟩
  · rw [hspans.eq_append]
    simp only [List.append_assoc, List.nil_append]
  · cases hop
    exact .receive blank_nil hl hsp hsp' hl'

theorem sound_channel (h : grammar.Takes size false (.rule .channel) xs trees rest) :
    ∃ tree zs, trees = [tree] ∧ Covers xs rest zs ∧
      ∀ op, buildOp tree = some op → WritesOp zs op := by
  rcases takes_choice_iff.mp ((takes_silent_iff rfl).mp h) with hsend | ⟨-, hreceive⟩
  · exact sound_send hsend
  · exact sound_receive hreceive

end Operations

section Statements

/-- The first of the statements that are built is written so. -/
theorem sound_statement (h : grammar.Takes size false (.rule .statement) xs trees rest) :
    ∃ tree zs, trees = [tree] ∧ Covers xs rest zs ∧ ∀ others ss,
      buildStatements (tree :: others) = some ss →
        ∃ s ss', ss = s :: ss' ∧ buildStatements others = some ss' ∧ WritesStatement zs s := by
  rcases takes_choice_iff.mp ((takes_silent_iff rfl).mp h) with hskip | ⟨-, hassignment⟩
  · rcases takes_skipStmt_iff.mp hskip with ⟨w, hw, hspans, rfl⟩
    rw [List.mem_singleton] at hw
    subst hw
    refine ⟨_, [] ++ "skip".toList, rfl, ⟨[], blank_nil, hspans.eq_append⟩,
      fun others ss hss => ?_⟩
    rcases Option.map_eq_some_iff.mp hss with ⟨ss', hss', rfl⟩
    exact ⟨.skip, ss', rfl, hss', .skip blank_nil⟩
  · rcases exists_of_takes_normal rfl hassignment with ⟨text, inner, hbody, rfl⟩
    rcases exists_of_takes_named hbody with ⟨l, sp, sp', ys, us, hl, hsp, hsp', rfl, hexpr, rfl⟩
    rcases sound_expr hexpr with ⟨tree, zs, rfl, ⟨b, hb, rfl⟩, hwrites⟩
    refine ⟨_, [] ++ (l ++ (sp ++ (":=".toList ++ (sp' ++ zs)))), rfl, ⟨b, hb, ?_⟩,
      fun others ss hss => ?_⟩
    · simp only [List.append_assoc, List.nil_append]
    · simp only [buildStatements] at hss
      cases he : build tree with
      | none =>
          rw [he] at hss
          cases hss
      | some value =>
          simp only [he] at hss
          rcases Option.map_eq_some_iff.mp hss with ⟨ss', hss', rfl⟩
          exact ⟨_, ss', rfl, hss',
            .assign blank_nil hl hsp ((hwrites value he).blank_append hsp')⟩

/-- Semicolons and statements that follow a statement, with space in front of them. -/
def StatementsRest (xs : List Char) (trees : List (ParseTree Rule)) (rest : List Char) : Prop :=
  ∀ b, Blank b → ∃ zs, Covers (b ++ xs) rest zs ∧ ∀ others ss,
    buildStatements (trees ++ others) = some ss →
      ∃ ss₁ ss₂, ss = ss₁ ++ ss₂ ∧ buildStatements others = some ss₂ ∧
        ∀ ys s, WritesStatement ys s → WritesStatements (ys ++ zs) (s :: ss₁)

theorem statementsRest_nil (xs : List Char) : StatementsRest xs [] xs := by
  intro b hb
  refine ⟨[], ⟨b, hb, rfl⟩, fun others ss hss => ⟨[], ss, rfl, hss, fun ys s hs => ?_⟩⟩
  rw [List.append_nil]
  exact .one hs

theorem StatementsRest.space {sp xs' : List Char} (hsp : Spans isSpace sp xs xs')
    (h : StatementsRest xs' trees rest) : StatementsRest xs trees rest := by
  intro b hb
  rw [hsp.eq_append, ← List.append_assoc]
  exact h (b ++ sp) (hb.append hsp.blank)

theorem StatementsRest.round {ts us : List (ParseTree Rule)} {mid : List Char}
    (hts : grammar.Takes size false (.seq (.text ";") (.rule .statement)) xs ts mid)
    (h : StatementsRest mid us rest) : StatementsRest xs (ts ++ us) rest := by
  intro b hb
  rcases takes_seq_space_iff.mp hts with ⟨ts, ys, sp, ys', us', hsemicolon, hsp, hone, rfl⟩
  rcases takes_text_iff.mp hsemicolon with ⟨rfl, rfl⟩
  rcases sound_statement hone with ⟨tree, zs, rfl, ⟨b', hb', rfl⟩, hfirst⟩
  rcases h b' hb' with ⟨zs', ⟨b'', hb'', hmid⟩, hothers⟩
  refine ⟨b ++ (";".toList ++ (sp ++ zs ++ zs')), ⟨b'', hb'', ?_⟩, fun others ss hss => ?_⟩
  · rw [hsp.eq_append, hmid]
    simp only [List.append_assoc]
  · rcases hfirst _ ss hss with ⟨s, ss', rfl, hss', hs⟩
    rcases hothers others ss' hss' with ⟨ss₁, ss₂, rfl, hss₂, hwrites⟩
    refine ⟨s :: ss₁, ss₂, rfl, hss₂, fun ys s' hs' => ?_⟩
    exact .cons hs' hb (hwrites _ s (hs.blank_append hsp.blank))

theorem statementsRest_of_takes_star
    (h : grammar.Takes size false (.star (.seq (.text ";") (.rule .statement))) xs trees rest) :
    StatementsRest xs trees rest := by
  refine takes_star_induction (by decide) (by decide) statementsRest_nil ?_ ?_ h
  · intro xs sp xs' us rest hsp h
    exact h.space hsp
  · intro xs ts mid us rest hts _ h
    exact h.round hts

/-- One or more statements, with or without a semicolon at the end. -/
theorem sound_statements (h : grammar.Takes size false statements xs trees rest) :
    ∃ zs, Covers xs rest zs ∧ ∀ b others ss, Blank b → buildStatements (trees ++ others) = some ss →
      ∃ ss₁ ss₂, ss = ss₁ ++ ss₂ ∧ buildStatements others = some ss₂ ∧
        WritesAction (b ++ zs) ss₁ := by
  rcases takes_seq_space_iff.mp h with ⟨ts, mid, sp, mid', us, hone, hsp, hothers, rfl⟩
  rcases sound_statement hone with ⟨tree, zs, rfl, ⟨b, hb, rfl⟩, hfirst⟩
  rcases takes_seq_space_iff.mp hothers with ⟨ts, ys, sp', ys', us, hstar, hsp', hlast, rfl⟩
  rcases (statementsRest_of_takes_star hstar).space hsp b hb with
    ⟨zs', ⟨b', hb', hmid⟩, hmore⟩
  have hbuilt : ∀ b others ss, Blank b → buildStatements ([tree] ++ ts ++ others) = some ss →
      ∃ ss₁ ss₂, ss = ss₁ ++ ss₂ ∧ buildStatements others = some ss₂ ∧
        WritesStatements (b ++ zs ++ zs') ss₁ := by
    intro b others ss hb hss
    rw [List.append_assoc, List.singleton_append] at hss
    rcases hfirst _ ss hss with ⟨s, ss', rfl, hss', hs⟩
    rcases hmore others ss' hss' with ⟨ss₁, ss₂, rfl, hss₂, hwrites⟩
    exact ⟨s :: ss₁, ss₂, rfl, hss₂, hwrites _ s (hs.blank_append hb)⟩
  rcases takes_opt_iff.mp hlast with hsemicolon | ⟨-, rfl, rfl⟩
  · -- The space in front of the last semicolon is part of the action.
    rcases takes_text_iff.mp hsemicolon with ⟨rfl, rfl⟩
    refine ⟨zs ++ (zs' ++ (b' ++ sp' ++ ";".toList)), ⟨[], blank_nil, ?_⟩,
      fun b others ss hb hss => ?_⟩
    · rw [hmid, hsp'.eq_append]
      simp only [List.append_assoc, List.nil_append]
    · rw [List.append_nil] at hss
      rcases hbuilt b others ss hb hss with ⟨ss₁, ss₂, hss, hss₂, hwrites⟩
      refine ⟨ss₁, ss₂, hss, hss₂, ?_⟩
      have hclosed := WritesAction.closed hwrites (hb'.append hsp'.blank)
      simp only [List.append_assoc] at hclosed ⊢
      exact hclosed
  · refine ⟨zs ++ zs', ⟨b' ++ sp', hb'.append hsp'.blank, ?_⟩, fun b others ss hb hss => ?_⟩
    · rw [hmid, hsp'.eq_append]
      simp only [List.append_assoc]
    · rw [List.append_nil] at hss
      rcases hbuilt b others ss hb hss with ⟨ss₁, ss₂, hss, hss₂, hwrites⟩
      rw [List.append_assoc] at hwrites
      exact ⟨ss₁, ss₂, hss, hss₂, .plain hwrites⟩

end Statements

section Texts

variable {text : String}

/-- A text that is read as a whole, with the space around what was taken. -/
theorem exists_of_inner? {r : Rule} {e : Exp Rule} {inner : List (ParseTree Rule)}
    (hr : define r = ⟨.normal, whole e⟩) (h : inner? r text = some inner) :
    ∃ b xs trees b' last, text.toList = b ++ xs ∧ Blank b ∧ Blank b' ∧
      grammar.Takes text.toList.length false e xs trees b' ∧
      inner = trees ++ [.node .endOfInput last []] := by
  unfold inner? at h
  split at h
  · next name inner' others rest hparse =>
    cases h
    rcases exists_of_takes_normal hr hparse with ⟨name, inner, hbody, htrees⟩
    cases htrees
    rcases takes_seq_space_iff.mp hbody with ⟨ts, mid, sp, mid', us, hstart, hsp, hrest, rfl⟩
    rcases takes_start_iff.mp hstart with ⟨rfl, rfl, -⟩
    rcases takes_seq_space_iff.mp hrest with ⟨ts, ys, sp', ys', us, he, hsp', hend, rfl⟩
    rcases exists_of_takes_normal rfl hend with ⟨last, inner, hfinish, rfl⟩
    rcases takes_finish_iff.mp hfinish with ⟨rfl, rfl, rfl⟩
    -- At the end of the text only space is left, and that is what was read behind `e`.
    have hys := hsp'.eq_append
    rw [List.append_nil] at hys
    subst hys
    exact ⟨sp, mid', ts, ys, last, hsp.eq_append, hsp.blank, hsp'.blank, he, rfl⟩
  · cases h

theorem Covers.isText {α : Type} {writes : List Char → α → Prop} {a : α} {b b' zs : List Char}
    (htext : text.toList = b ++ xs) (hb' : Blank b') (h : Covers xs b' zs)
    (hwrites : writes (b ++ zs) a) : IsText writes text a := by
  rcases h with ⟨sp, hsp, rfl⟩
  refine ⟨b ++ zs, sp ++ b', ?_, hsp.append hb', hwrites⟩
  rw [htext, List.append_assoc]

theorem isText_of_condition? {e : Expr} (h : condition? text = some e) :
    IsText (Writes (.chained .disjunction)) text e := by
  simp only [condition?, Option.bind_eq_bind, Option.bind_eq_some_iff] at h
  rcases h with ⟨inner, hinner, tree, htree, he⟩
  rcases exists_of_inner? rfl hinner with ⟨b, xs, trees, b', last, htext, hb, hb', hexpr, rfl⟩
  rcases sound_expr hexpr with ⟨tree', zs, rfl, hcovers, hwrites⟩
  cases htree
  exact hcovers.isText htext hb' ((hwrites e he).blank_append hb)

theorem isText_of_action? {ss : List Statement} (h : action? text = some ss) :
    IsText WritesAction text ss := by
  simp only [action?, Option.bind_eq_bind, Option.bind_eq_some_iff] at h
  rcases h with ⟨inner, hinner, hss⟩
  rcases exists_of_inner? rfl hinner with ⟨b, xs, trees, b', last, htext, hb, hb', hbody, rfl⟩
  have hlast : buildStatements [.node .endOfInput last []] = some [] := by
    rw [buildStatements, buildStatements]
  rcases takes_opt_iff.mp hbody with hsome | ⟨-, rfl, rfl⟩
  · rcases sound_statements hsome with ⟨zs, hcovers, hbuilt⟩
    rcases hbuilt b _ ss hb hss with ⟨ss₁, ss₂, rfl, hss₂, hwrites⟩
    rw [hlast] at hss₂
    cases hss₂
    rw [List.append_nil]
    exact hcovers.isText htext hb' hwrites
  · -- Nothing but space.
    rw [List.nil_append, hlast] at hss
    cases hss
    exact ⟨[], b ++ b', htext, hb.append hb', .empty⟩

theorem isText_of_oneSided? {op : ChannelOp} (h : oneSided? text = some op) :
    IsText WritesOp text op := by
  simp only [oneSided?, Option.bind_eq_bind, Option.bind_eq_some_iff] at h
  rcases h with ⟨inner, hinner, tree, htree, hop⟩
  rcases exists_of_inner? rfl hinner with ⟨b, xs, trees, b', last, htext, hb, hb', hchannel, rfl⟩
  rcases sound_channel hchannel with ⟨tree', zs, rfl, hcovers, hwrites⟩
  cases htree
  exact hcovers.isText htext hb' ((hwrites op hop).blank_append hb)

theorem isText_of_sync? {ops : ChannelOp × ChannelOp} (h : sync? text = some ops) :
    IsText WritesPair text ops := by
  rw [sync?, Option.bind_eq_bind, Option.bind_eq_some_iff] at h
  rcases h with ⟨inner, hinner, hops⟩
  rcases exists_of_inner? rfl hinner with ⟨b, xs, trees, b', last, htext, hb, hb', hbody, rfl⟩
  rcases takes_seq_space_iff.mp hbody with ⟨ts, mid, sp, mid', us, hfirst, hsp, hrest, rfl⟩
  rcases takes_seq_space_iff.mp hrest with ⟨vs, ys, sp', ys', us, hbar, hsp', hsecond, rfl⟩
  rcases takes_text_iff.mp hbar with ⟨rfl, rfl⟩
  rcases sound_channel hfirst with ⟨tree, zs, rfl, ⟨c, hc, rfl⟩, hwrites⟩
  rcases sound_channel hsecond with ⟨tree', zs', rfl, ⟨c', hc', rfl⟩, hwrites'⟩
  rcases Option.bind_eq_some_iff.mp hops with ⟨first, hone, hops⟩
  rcases Option.bind_eq_some_iff.mp hops with ⟨second, hother, hops⟩
  cases hops
  refine ⟨b ++ zs ++ (c ++ sp ++ ("|".toList ++ (sp' ++ zs'))), c' ++ b', ?_, hc'.append hb', ?_⟩
  · rw [htext, hsp.eq_append, hsp'.eq_append]
    simp only [List.append_assoc]
  · exact .mk ((hwrites first hone).blank_append hb) (hc.append hsp.blank)
      ((hwrites' second hother).blank_append hsp'.blank)

end Texts

end Dialect

end Script

end Interleaving
