import Interleaving.Proofs.Peg
import Interleaving.Proofs.Script.Spelling
import Interleaving.Script.Dialect

/-!
# Words of the Dialect

What the rules for space, words, numbers and operators take. A name, a number or a piece of
space is a run of characters of one class: all that follow are taken, and nothing of the
class is left. That makes the look-ahead of keywords a plain condition. A keyword is taken
where it is the whole run, and a name is a run that is no keyword.

An alternative that is tried first could hide a later one that is longer. Among the words
none begins with another, so their order does not matter; among the operators the longer
ones come first.

The rules of the dialect can be ranked, so reading always comes to an end, and to know where
a rule fails it is enough to know what it takes.

## Main definitions

* `Dialect.ranking`: The ranks of the rules.
* `Dialect.Spans`: A run of characters of one class, with all that belongs to it.

## Theorems

* `Dialect.ranks_grammar`: Reading by the dialect comes to an end.
* `Dialect.takes_space_iff`, `Dialect.takes_ident_iff`, `Dialect.takes_int_iff`,
  `Dialect.takes_boolean_iff`, `Dialect.takes_skipStmt_iff`: What the rules for words take.
* `Dialect.takes_operator_iff`: What the rules for operators take.
* `Dialect.takes_star_induction`: Induction along a repetition.
-/

namespace Interleaving

namespace Script

namespace Dialect

open Peg Grammar

section Ranks

/-- A rule calls itself only behind an opening parenthesis, so the levels of an expression
    rank from the tightest to the loosest. -/
def ranking : Ranking Rule where
  rank
    | .whitespace | .endOfInput => 0
    | .keyword | .int | .boolean | .skipStmt => 1
    | .orOp | .andOp | .cmpOp | .addOp | .mulOp | .unaryOp => 1
    | .ident => 2
    | .primary | .assignment | .send | .receive => 3
    | .unary | .statement | .channel => 4
    | .product => 5
    | .sum => 6
    | .cmpExpr => 7
    | .andExpr => 8
    | .expr => 9
    | .condition | .action | .oneSided | .sync => 10
  consumes
    | .endOfInput | .condition | .action | .oneSided | .sync => false
    | _ => true
  bound := 11

theorem ranks_grammar : ranking.Ranks grammar where
  rank_lt r := by cases r <;> decide
  guards_body r := by cases r <;> decide
  advances_body r := by cases r <;> decide

theorem fails_of_not_takes {size : Nat} {m : Bool} {r : Rule} {xs : List Char}
    (h : ∀ trees rest, ¬ grammar.Takes size m (.rule r) xs trees rest) :
    grammar.Fails size m (.rule r) xs :=
  ranks_grammar.fails_of_not_takes (decide_eq_true (ranks_grammar.rank_lt r)) h

end Ranks

section Runs

/-- The characters `l` are all that `xs` begins with of a class, and `rest` follows. -/
structure Spans (among : Char → Bool) (l xs rest : List Char) : Prop where
  eq_append : xs = l ++ rest
  all : ∀ c ∈ l, among c = true
  apart : ∀ c rest', rest = c :: rest' → among c = false

variable {among : Char → Bool} {l l' xs rest rest' : List Char} {c : Char}

theorem spans_iff : Spans among l xs rest ↔ l = xs.takeWhile among ∧ rest = xs.dropWhile among := by
  constructor
  · intro h
    rcases h with ⟨rfl, hall, hapart⟩
    -- The run does not go on into the rest.
    have hnil : rest.takeWhile among = [] ∧ rest.dropWhile among = rest := by
      cases rest with
      | nil => exact ⟨rfl, rfl⟩
      | cons c rest => simp [hapart c rest rfl]
    rw [List.takeWhile_append_of_pos hall, List.dropWhile_append_of_pos hall, hnil.1, hnil.2,
      List.append_nil]
    exact ⟨rfl, rfl⟩
  · intro h
    rcases h with ⟨rfl, rfl⟩
    refine ⟨(List.takeWhile_append_dropWhile).symm, fun c hc => List.mem_takeWhile_imp hc, ?_⟩
    intro c rest' hrest
    have hhead := List.head?_dropWhile_not among xs
    simpa [hrest] using hhead

theorem spans_takeWhile (among : Char → Bool) (xs : List Char) :
    Spans among (xs.takeWhile among) xs (xs.dropWhile among) :=
  spans_iff.mpr ⟨rfl, rfl⟩

theorem Spans.unique (h : Spans among l xs rest) (h' : Spans among l' xs rest') :
    l = l' ∧ rest = rest' := by
  rw [spans_iff] at h h'
  exact ⟨h.1.trans h'.1.symm, h.2.trans h'.2.symm⟩

theorem Spans.drop_eq (h : Spans among l xs rest) : xs.drop l.length = rest := by
  rw [h.eq_append, List.drop_left]

theorem Spans.length_le (h : Spans among l xs rest) : rest.length ≤ xs.length := by
  rw [h.eq_append, List.length_append]
  omega

theorem Spans.cons (hc : among c = true) (h : Spans among l xs rest) :
    Spans among (c :: l) (c :: xs) rest where
  eq_append := by rw [h.eq_append, List.cons_append]
  all := List.forall_mem_cons.mpr ⟨hc, h.all⟩
  apart := h.apart

end Runs

section Rules

variable {size : Nat} {m : Bool} {xs rest : List Char} {trees : List (ParseTree Rule)}

theorem Spans.wrap_eq {among : Char → Bool} {l : List Char} {r : Rule}
    {inner : List (ParseTree Rule)} (h : Spans among l xs rest)
    (hr : (grammar.define r).mode ≠ .silent) :
    grammar.wrap false r xs inner rest = [.node r (String.ofList l) inner] := by
  rw [h.eq_append, wrap_append hr]

/-- A class of characters and the underscore. -/
theorem readsClass_underscore (among : Char → Bool) :
    grammar.ReadsClass size m (.choice (.char among) (.text "_"))
      (fun c => among c || c == '_') where
  takes {c} hc rest := by
    refine takes_choice_iff.mpr ?_
    cases hletter : among c with
    | true => exact Or.inl (takes_char_iff.mpr ⟨rfl, c, hletter, rfl⟩)
    | false =>
        rw [hletter, Bool.false_or, beq_iff_eq] at hc
        subst hc
        refine Or.inr ⟨fails_char_iff.mpr ?_, takes_text_iff.mpr ⟨rfl, rfl⟩⟩
        rintro c rest' ⟨⟩
        exact hletter
  fails {xs} hxs := by
    refine fails_choice_iff.mpr ⟨fails_char_iff.mpr ?_, fails_text_iff.mpr ?_⟩
    · intro c rest hcons
      exact (Bool.or_eq_false_iff.mp (hxs c rest hcons)).1
    · intro h
      rcases h with ⟨rest, rfl⟩
      have hunderscore := (Bool.or_eq_false_iff.mp (hxs '_' rest rfl)).2
      exact absurd hunderscore (by decide)

theorem readsClass_wordChar : grammar.ReadsClass size m wordChar isWordChar :=
  readsClass_underscore Char.isAlphanum

theorem readsClass_whitespace : grammar.ReadsClass size true (.rule .whitespace) isSpace where
  takes {c} hc rest := by
    refine takes_rule_iff.mpr ⟨[], takes_oneOf_iff.mpr ⟨rfl, String.ofList [c], ?_, ?_⟩, rfl⟩
    · simp only [isSpace, Bool.or_eq_true, beq_iff_eq] at hc
      rcases hc with ((rfl | rfl) | rfl) | rfl <;> rfl
    · rw [String.toList_ofList, List.singleton_append]
  fails {xs} hxs := by
    refine fails_of_not_takes fun trees rest h => ?_
    rcases takes_rule_iff.mp h with ⟨inner, hbody, -⟩
    rcases takes_oneOf_iff.mp hbody with ⟨-, s, hfirst, rfl⟩
    have hmem : s ∈ [" ", "\t", "\r", "\n"] := (of_firstOf?_eq_some hfirst).1
    simp only [List.mem_cons, List.not_mem_nil, or_false] at hmem
    rcases hmem with rfl | rfl | rfl | rfl <;> exact absurd (hxs _ rest rfl) (by decide)

theorem takes_space_iff : grammar.Takes size false .space xs trees rest ↔
    trees = [] ∧ ∃ b, Spans isSpace b xs rest := by
  have hspace : grammar.Takes size false .space xs [] (xs.dropWhile isSpace) := by
    rw [Takes, run_space]
    exact readsClass_whitespace.takes_many xs
  rw [Takes, hspace]
  constructor
  · intro h
    cases h
    exact ⟨rfl, _, spans_takeWhile isSpace xs⟩
  · intro h
    rcases h with ⟨rfl, b, hb⟩
    rw [(spans_iff.mp hb).2]

/-- One of some words, none of which begins with another, is taken where it is a whole run. -/
theorem takes_wholeWord_iff {words : List String}
    (hwords : ∀ w ∈ words, w.toList.all isWordChar = true)
    (hdistinct : ∀ w ∈ words, ∀ w' ∈ words, w.toList <+: w'.toList → w = w') :
    grammar.Takes size true (wholeWord words) xs trees rest ↔
      trees = [] ∧ ∃ w ∈ words, Spans isWordChar w.toList xs rest := by
  rw [wholeWord, takes_seq_atomic_iff]
  constructor
  · intro h
    rcases h with ⟨ts, mid, us, hts, hus, rfl⟩
    rcases takes_oneOf_iff.mp hts with ⟨rfl, w, hfirst, rfl⟩
    rcases takes_not_iff.mp hus with ⟨rfl, rfl, hfails⟩
    have hmem : w ∈ words := (of_firstOf?_eq_some hfirst).1
    refine ⟨rfl, w, hmem, rfl, List.all_eq_true.mp (hwords w hmem), ?_⟩
    rintro c rest' rfl
    -- A character of a word would have been seen by looking ahead.
    cases hc : isWordChar c with
    | false => rfl
    | true =>
        have htakes : grammar.Takes size true wordChar (c :: rest') [] rest' :=
          readsClass_wordChar.takes hc rest'
        rw [Takes, hfails] at htakes
        cases htakes
  · intro h
    rcases h with ⟨rfl, w, hmem, hspans⟩
    have hw : w.toList <+: xs := ⟨rest, hspans.eq_append.symm⟩
    -- The word that is tried first begins the text as well, so it is the same.
    have hfirst : firstOf? words xs = some w := by
      cases hfind : firstOf? words xs with
      | none => exact absurd hw (firstOf?_eq_none_iff.mp hfind w hmem)
      | some w' =>
          rcases of_firstOf?_eq_some hfind with ⟨hmem', hw'⟩
          rcases List.prefix_or_prefix_of_prefix hw hw' with h | h
          · rw [hdistinct w hmem w' hmem' h]
          · rw [hdistinct w' hmem' w hmem h]
    exact ⟨[], rest, [], takes_oneOf_iff.mpr ⟨rfl, w, hfirst, hspans.eq_append⟩,
      takes_not_iff.mpr ⟨rfl, rfl, readsClass_wordChar.fails hspans.apart⟩, rfl⟩

/-- A rule for whole words leaves the word as its tree. -/
theorem takes_wordRule_iff {r : Rule} {words : List String}
    (hr : define r = ⟨.atomic, wholeWord words⟩)
    (hwords : ∀ w ∈ words, w.toList.all isWordChar = true)
    (hdistinct : ∀ w ∈ words, ∀ w' ∈ words, w.toList <+: w'.toList → w = w') :
    grammar.Takes size false (.rule r) xs trees rest ↔
      ∃ w ∈ words, Spans isWordChar w.toList xs rest ∧ trees = [.node r w []] := by
  have hdefine : grammar.define r = ⟨.atomic, wholeWord words⟩ := hr
  have hne : (grammar.define r).mode ≠ .silent := by
    rw [hdefine]
    intro h
    cases h
  rw [takes_rule_iff, hdefine, Bool.false_or, beq_self_eq_true]
  simp only [takes_wholeWord_iff hwords hdistinct]
  constructor
  · intro h
    rcases h with ⟨inner, ⟨rfl, w, hmem, hspans⟩, rfl⟩
    refine ⟨w, hmem, hspans, ?_⟩
    rw [hspans.wrap_eq hne, String.ofList_toList]
  · intro h
    rcases h with ⟨w, hmem, hspans, rfl⟩
    refine ⟨[], ⟨rfl, w, hmem, hspans⟩, ?_⟩
    rw [hspans.wrap_eq hne, String.ofList_toList]

theorem takes_boolean_iff : grammar.Takes size false (.rule .boolean) xs trees rest ↔
    ∃ w ∈ ["true", "false"], Spans isWordChar w.toList xs rest ∧ trees = [.node .boolean w []] :=
  takes_wordRule_iff rfl (by decide) (by decide)

theorem takes_skipStmt_iff : grammar.Takes size false (.rule .skipStmt) xs trees rest ↔
    ∃ w ∈ ["skip"], Spans isWordChar w.toList xs rest ∧ trees = [.node .skipStmt w []] :=
  takes_wordRule_iff rfl (by decide) (by decide)

theorem takes_keyword_iff : grammar.Takes size true (.rule .keyword) xs trees rest ↔
    trees = [] ∧ ∃ w ∈ ["true", "false", "skip"], Spans isWordChar w.toList xs rest := by
  have hbody : grammar.Takes size true (.rule .keyword) xs trees rest ↔
      grammar.Takes size true (wholeWord ["true", "false", "skip"]) xs trees rest := by
    rw [takes_rule_iff]
    constructor
    · intro h
      rcases h with ⟨inner, hinner, rfl⟩
      exact hinner
    · intro hinner
      exact ⟨trees, hinner, wrap_atomic.symm⟩
  rw [hbody]
  exact takes_wholeWord_iff (by decide) (by decide)

theorem isName_iff {l : List Char} : IsName l ↔
    (∃ c l', l = c :: l' ∧ isWordStart c = true ∧ ∀ d ∈ l', isWordChar d = true) ∧
      ∀ w ∈ ["true", "false", "skip"], l ≠ w.toList := by
  simp [IsName]

/-- A name is a run of letters, digits and underscores. Where its run is a keyword, there is
    no name. -/
theorem takes_ident_iff : grammar.Takes size false (.rule .ident) xs trees rest ↔
    ∃ l, Spans isWordChar l xs rest ∧ IsName l ∧
      trees = [.node .ident (String.ofList l) []] := by
  have hstart : grammar.ReadsClass size true (.choice (.char Char.isAlpha) (.text "_"))
    isWordStart := readsClass_underscore Char.isAlpha
  have hne : (grammar.define .ident).mode ≠ .silent := by decide
  rw [takes_rule_iff]
  constructor
  · intro h
    rcases h with ⟨inner, hbody, rfl⟩
    rcases takes_seq_atomic_iff.mp hbody with ⟨ts, mid, us, hlook, hword, rfl⟩
    rcases takes_not_iff.mp hlook with ⟨rfl, rfl, hkeyword⟩
    rcases takes_seq_atomic_iff.mp hword with ⟨ts, mid, us, hfirst, hothers, rfl⟩
    rcases hstart.takes_iff.mp hfirst with ⟨rfl, c, hc, rfl⟩
    rcases readsClass_wordChar.takes_star_iff.mp hothers with ⟨rfl, rfl⟩
    have hspans := (spans_takeWhile isWordChar mid).cons (isWordChar_of_isWordStart hc)
    refine ⟨_, hspans, isName_iff.mpr ⟨⟨c, _, rfl, hc, ?_⟩, ?_⟩, ?_⟩
    · intro d hd
      exact List.mem_takeWhile_imp hd
    · intro w hw hrun
      -- The keyword would have been seen by looking ahead.
      rw [hrun] at hspans
      rw [Fails, takes_keyword_iff.mpr ⟨rfl, w, hw, hspans⟩] at hkeyword
      cases hkeyword
    · exact hspans.wrap_eq hne
  · intro h
    rcases h with ⟨l, hspans, hname, rfl⟩
    rcases isName_iff.mp hname with ⟨⟨c, l, rfl, hc, hl⟩, hkeywords⟩
    -- A keyword that is seen by looking ahead would be the whole run, and so the name.
    have hkeyword : grammar.Fails size true (.rule .keyword) xs := by
      refine fails_of_not_takes fun trees rest' h => ?_
      rcases takes_keyword_iff.mp h with ⟨-, w, hw, hspans'⟩
      exact hkeywords w hw (hspans.unique hspans').1
    have hothers : rest = (l ++ rest).dropWhile isWordChar :=
      (spans_iff.mp ⟨rfl, hl, hspans.apart⟩).2
    refine ⟨[], ?_, ?_⟩
    · refine takes_seq_atomic_iff.mpr
        ⟨[], xs, [], takes_not_iff.mpr ⟨rfl, rfl, hkeyword⟩, ?_, rfl⟩
      exact takes_seq_atomic_iff.mpr ⟨[], l ++ rest, [],
        hstart.takes_iff.mpr ⟨rfl, c, hc, hspans.eq_append⟩,
        readsClass_wordChar.takes_star_iff.mpr ⟨rfl, hothers⟩, rfl⟩
    · exact (hspans.wrap_eq hne).symm

theorem readsClass_digit : grammar.ReadsClass size m (.char Char.isDigit) Char.isDigit where
  takes {c} hc _ := takes_char_iff.mpr ⟨rfl, c, hc, rfl⟩
  fails hxs := fails_char_iff.mpr hxs

theorem takes_int_iff : grammar.Takes size false (.rule .int) xs trees rest ↔
    ∃ l, Spans Char.isDigit l xs rest ∧ l ≠ [] ∧
      trees = [.node .int (String.ofList l) []] := by
  have hne : (grammar.define .int).mode ≠ .silent := by decide
  rw [takes_rule_iff]
  constructor
  · intro h
    rcases h with ⟨inner, hbody, rfl⟩
    rcases takes_seq_atomic_iff.mp hbody with ⟨ts, mid, us, hfirst, hothers, rfl⟩
    rcases takes_char_iff.mp hfirst with ⟨rfl, c, hc, rfl⟩
    rcases readsClass_digit.takes_star_iff.mp hothers with ⟨rfl, rfl⟩
    have hspans := (spans_takeWhile Char.isDigit mid).cons hc
    exact ⟨_, hspans, List.cons_ne_nil _ _, hspans.wrap_eq hne⟩
  · intro h
    rcases h with ⟨l, hspans, hnil, rfl⟩
    rcases List.exists_cons_of_ne_nil hnil with ⟨c, l, rfl⟩
    have hall := List.forall_mem_cons.mp hspans.all
    have hothers : rest = (l ++ rest).dropWhile Char.isDigit :=
      (spans_iff.mp ⟨rfl, hall.2, hspans.apart⟩).2
    refine ⟨[], ?_, (hspans.wrap_eq hne).symm⟩
    exact takes_seq_atomic_iff.mpr ⟨[], l ++ rest, [],
      takes_char_iff.mpr ⟨rfl, c, hall.1, hspans.eq_append⟩,
      readsClass_digit.takes_star_iff.mpr ⟨rfl, hothers⟩, rfl⟩

/-- A rule for operators leaves the first one that can be taken as its tree. -/
theorem takes_operator_iff {r : Rule} {symbols : List String}
    (hr : define r = ⟨.normal, .oneOf symbols⟩) :
    grammar.Takes size false (.rule r) xs trees rest ↔
      ∃ s, firstOf? symbols xs = some s ∧ xs = s.toList ++ rest ∧ trees = [.node r s []] := by
  have hdefine : grammar.define r = ⟨.normal, .oneOf symbols⟩ := hr
  have hne : (grammar.define r).mode ≠ .silent := by
    rw [hdefine]
    intro h
    cases h
  rw [takes_rule_iff, hdefine]
  constructor
  · intro h
    rcases h with ⟨inner, hbody, rfl⟩
    rcases takes_oneOf_iff.mp hbody with ⟨rfl, s, hfirst, rfl⟩
    refine ⟨s, hfirst, rfl, ?_⟩
    rw [wrap_append hne, String.ofList_toList]
  · intro h
    rcases h with ⟨s, hfirst, rfl, rfl⟩
    refine ⟨[], takes_oneOf_iff.mpr ⟨rfl, s, hfirst, rfl⟩, ?_⟩
    rw [wrap_append hne, String.ofList_toList]

/-- Two parts, with all the space between them. -/
theorem takes_seq_space_iff {a b : Exp Rule} :
    grammar.Takes size false (a.seq b) xs trees rest ↔
      ∃ ts mid sp mid' us, grammar.Takes size false a xs ts mid ∧ Spans isSpace sp mid mid' ∧
        grammar.Takes size false b mid' us rest ∧ trees = ts ++ us := by
  rw [takes_seq_iff]
  constructor
  · intro h
    rcases h with ⟨ts, mid, sp, mid', us, ha, hspace, hb, rfl⟩
    rcases takes_space_iff.mp hspace with ⟨rfl, sp, hsp⟩
    exact ⟨ts, mid, sp, mid', us, ha, hsp, hb, rfl⟩
  · intro h
    rcases h with ⟨ts, mid, sp, mid', us, ha, hsp, hb, rfl⟩
    exact ⟨ts, mid, [], mid', us, ha, takes_space_iff.mpr ⟨rfl, sp, hsp⟩, hb, rfl⟩

/-- A rule that is neither silent nor atomic leaves one tree over those of its body. -/
theorem exists_of_takes_normal {r : Rule} {body : Exp Rule} (hr : define r = ⟨.normal, body⟩)
    (h : grammar.Takes size false (.rule r) xs trees rest) :
    ∃ text inner, grammar.Takes size false body xs inner rest ∧
      trees = [.node r text inner] := by
  have hdefine : grammar.define r = ⟨.normal, body⟩ := hr
  rcases takes_rule_iff.mp h with ⟨inner, hbody, rfl⟩
  rw [hdefine] at hbody
  refine ⟨_, inner, hbody, wrap_of_ne_silent ?_⟩
  rw [hdefine]
  intro h
  cases h

theorem exists_takes_normal {r : Rule} {body : Exp Rule} (hr : define r = ⟨.normal, body⟩)
    (h : grammar.Takes size false body xs trees rest) :
    ∃ text, grammar.Takes size false (.rule r) xs [.node r text trees] rest := by
  have hdefine : grammar.define r = ⟨.normal, body⟩ := hr
  refine ⟨_, takes_rule_iff.mpr ⟨trees, ?_, (wrap_of_ne_silent ?_).symm⟩⟩
  · rw [hdefine]
    exact h
  · rw [hdefine]
    intro h
    cases h

theorem takes_silent_iff {r : Rule} {body : Exp Rule} (hr : define r = ⟨.silent, body⟩) :
    grammar.Takes size false (.rule r) xs trees rest ↔
      grammar.Takes size false body xs trees rest := by
  have hdefine : grammar.define r = ⟨.silent, body⟩ := hr
  have hwrap : ∀ inner, grammar.wrap false r xs inner rest = inner := by
    intro inner
    exact wrap_silent (by rw [hdefine])
  rw [takes_rule_iff, hdefine]
  simp only [hwrap]
  constructor
  · intro h
    rcases h with ⟨inner, hbody, rfl⟩
    exact hbody
  · intro hbody
    exact ⟨trees, hbody, rfl⟩

/-- Induction along a repetition, with the rounds and the space between them apart. -/
theorem takes_star_induction {a : Exp Rule}
    (hguards : ranking.guards .whitespace ranking.bound a = true)
    (hadvances : ranking.advances a = true)
    {motive : List Char → List (ParseTree Rule) → List Char → Prop}
    (done : ∀ xs, motive xs [] xs)
    (space : ∀ xs sp xs' us rest, Spans isSpace sp xs xs' → motive xs' us rest →
      motive xs us rest)
    (round : ∀ xs ts mid us rest, grammar.Takes size false a xs ts mid →
      mid.length < xs.length → motive mid us rest → motive xs (ts ++ us) rest)
    (h : grammar.Takes size false a.star xs trees rest) : motive xs trees rest := by
  have hstep : ∀ xs ts mid us rest, grammar.Takes size false a xs ts mid → motive mid us rest →
      motive xs (ts ++ us) rest := by
    intro xs ts mid us rest hts
    exact round xs ts mid us rest hts (ranks_grammar.length_lt hguards hadvances hts)
  rcases cases_of_takes_star h with ⟨rfl, rfl⟩ | ⟨ts, mid, us, hts, hus, rfl⟩
  · exact done rest
  · -- Only the first round has no space in front of it.
    refine hstep xs ts mid us rest hts ?_
    refine ranks_grammar.takes_many_induction ?_ ?_ done ?_ hus
    · simp only [Ranking.guards, Ranking.advances, Bool.false_eq_true, if_false, Bool.and_eq_true]
      exact ⟨by decide, hguards⟩
    · rw [Ranking.advances, hadvances, Bool.or_true]
    · intro xs ts mid us rest hround hus
      rcases takes_cat_iff.mp hround with ⟨sp, mid', ts, hspace, hts, rfl⟩
      rcases takes_space_iff.mp hspace with ⟨rfl, sp, hsp⟩
      exact space xs sp mid' _ rest hsp (hstep mid' ts mid us rest hts hus)

end Rules

end Dialect

end Script

end Interleaving
