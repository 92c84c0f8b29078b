import Interleaving.Proofs.Script.Dialect.Completeness

/-!
# The Dialect and the Readers

The four kinds of text, read by the grammar of the dialect and read by tokens. The two ways
have little in common. One tries alternatives character by character and knows no tokens, the
other cuts the whole text into tokens before it looks at any of them. A text that one of them
gives up on early the other may read far into, and still both accept the same texts with the
same meaning.

What the grammar reads is written so, and what is written so the readers read. The other way
what the readers read has derivable tokens, and these the grammar takes. So no reader needs
to be followed into a text that it rejects. That the grammar rejects it too, and does not go on
forever, is that reading by the dialect always ends.

## Theorems

* `Dialect.exists_takes_channel`, `Dialect.exists_takes_statements`: Channel operations and
  statements are taken.
* `Dialect.condition?_eq`, `Dialect.action?_eq`, `Dialect.oneSided?_eq`, `Dialect.sync?_eq`: The
  two ways to read agree.
* `parse?_recognizes`: The language is recognized by the readers, and by the dialect.
-/

namespace Interleaving

namespace Script

namespace Dialect

open Peg Peg.Grammar Script.Grammar Token

variable {size : Nat} {xs rest : List Char} {t : Token} {ts us : List Token}

theorem accepts_expr {e : Expr} (h : Derives (.chained .disjunction) ts e) (hends : Ends 0 us)
    (hfresh : Fresh xs) (hscan : scan 0 xs = some (ts ++ us)) : Accepts size .expr xs us e :=
  acceptsPart_of_derives h size us xs hends hscan hfresh

section Names

variable {name s : String} {b : Exp Rule}

/-- A name, a sign and what follows them. -/
theorem exists_takes_named {after : List (ParseTree Rule) → List Char → Prop}
    (hlexeme : ∀ l, t.Lexeme l → l = s.toList) (hfresh : Fresh xs)
    (h : scan 0 xs = some (.ident name :: t :: ts))
    (hb : ∀ ys, Fresh ys → scan 0 ys = some ts →
      ∃ trees rest, grammar.Takes size false b ys trees rest ∧ after trees rest) :
    ∃ trees rest, grammar.Takes size false (.seq (.rule .ident) (.seq (.text s) b)) xs
      (.node .ident name [] :: trees) rest ∧ after trees rest := by
  rcases exists_takes_ident hfresh h with ⟨mid, hname, hmid, -⟩
  rcases exists_behind hname hmid with ⟨ys, hfresh', hys, hbehind⟩
  rcases exists_takes_text hlexeme hfresh' hys with ⟨zs, htext, hzs⟩
  rcases exists_behind htext hzs with ⟨zs', hfresh'', hzs', hbehind'⟩
  rcases hb zs' hfresh'' hzs' with ⟨trees, rest, hbody, hafter⟩
  exact ⟨trees, rest, hbehind.takes (hbehind'.takes hbody), hafter⟩

theorem exists_takes_named_expr {e : Expr} (hlexeme : ∀ l, t.Lexeme l → l = s.toList)
    (he : Derives (.chained .disjunction) ts e) (hends : Ends 0 us) (hfresh : Fresh xs)
    (h : scan 0 xs = some (.ident name :: t :: (ts ++ us))) :
    ∃ tree rest, grammar.Takes size false (.seq (.rule .ident) (.seq (.text s) (.rule .expr))) xs
      [.node .ident name [], tree] rest ∧ build tree = some e ∧ scan 0 rest = some us := by
  have hexpr : ∀ ys, Fresh ys → scan 0 ys = some (ts ++ us) → ∃ trees rest,
      grammar.Takes size false (.rule .expr) ys trees rest ∧
        ∃ tree, trees = [tree] ∧ build tree = some e ∧ scan 0 rest = some us := by
    intro ys hys hts
    rcases accepts_expr he hends hys hts with ⟨tree, rest, htakes, hbuild, hrest⟩
    exact ⟨[tree], rest, htakes, tree, rfl, hbuild, hrest⟩
  rcases exists_takes_named hlexeme hfresh h hexpr with
    ⟨trees, rest, hbody, tree, rfl, hbuild, hrest⟩
  exact ⟨tree, rest, hbody, hbuild, hrest⟩

/-- Behind a name, another sign than the one that follows. -/
theorem fails_named (hlexeme : ∀ l, t.Lexeme l → ∀ r, ¬ s.toList <+: l ++ r) (hfresh : Fresh xs)
    (h : scan 0 xs = some (.ident name :: t :: ts)) :
    grammar.Fails size false (.seq (.rule .ident) (.seq (.text s) b)) xs := by
  rcases exists_takes_ident hfresh h with ⟨mid, hname, hmid, -⟩
  rcases exists_behind hname hmid with ⟨ys, hfresh', hys, hbehind⟩
  rcases exists_lexeme_of_scan hfresh' hys with ⟨l, r, rfl, hl, -⟩
  exact hbehind.fails (fails_seq_of_left (fails_text_iff.mpr (hlexeme l hl r)))

end Names

section Operations

theorem exists_takes_channel {op : ChannelOp} (h : DerivesOp ts op) (hends : Ends 0 us)
    (hfresh : Fresh xs) (hscan : scan 0 xs = some (ts ++ us)) :
    ∃ tree rest, grammar.Takes size false (.rule .channel) xs [tree] rest ∧
      buildOp tree = some op ∧ scan 0 rest = some us := by
  cases h with
  | @send channel ts value hvalue =>
      rcases exists_takes_named_expr (t := .bang) (s := "!") (fun l hl => hl) hvalue hends hfresh
        hscan with ⟨tree, rest, hbody, hbuild, hrest⟩
      rcases exists_takes_normal (r := .send) rfl hbody with ⟨text, htakes⟩
      refine ⟨_, rest, (takes_silent_iff rfl).mpr (takes_choice_iff.mpr (Or.inl htakes)), ?_, hrest⟩
      rw [buildOp, hbuild]
      rfl
  | receive channel target =>
      have hname : ∀ ys, Fresh ys → scan 0 ys = some (.ident target :: us) → ∃ trees rest,
          grammar.Takes size false (.rule .ident) ys trees rest ∧
            trees = [.node .ident target []] ∧ scan 0 rest = some us := by
        intro ys hys hts
        rcases exists_takes_ident hys hts with ⟨rest, htakes, hrest, -⟩
        exact ⟨_, rest, htakes, rfl, hrest⟩
      rcases exists_takes_named (t := .query) (s := "?") (fun l hl => hl) hfresh hscan hname with
        ⟨trees, rest, hbody, rfl, hrest⟩
      rcases exists_takes_normal (r := .receive) rfl hbody with ⟨text, htakes⟩
      -- A send is tried first, and fails at the question mark.
      have hsend : grammar.Fails size false (.rule .send) xs := by
        refine fails_rule_iff.mpr (fails_named (t := .query) ?_ hfresh hscan)
        rintro l rfl r ⟨r', hr⟩
        exact absurd (List.cons.inj hr).1 (by decide)
      exact ⟨_, rest, (takes_silent_iff rfl).mpr (takes_choice_iff.mpr (Or.inr ⟨hsend, htakes⟩)),
        rfl, hrest⟩

end Operations

section Statements

theorem exists_takes_skip (hfresh : Fresh xs) (hscan : scan 0 xs = some (.skip :: us)) :
    ∃ rest, grammar.Takes size false (.rule .skipStmt) xs [.node .skipStmt "skip" []] rest ∧
      scan 0 rest = some us := by
  rcases exists_lexeme_of_scan hfresh hscan with ⟨l, rest, rfl, hl, hrest, hapart⟩
  cases hl
  refine ⟨rest, takes_skipStmt_iff.mpr ⟨"skip", by decide, ?_, rfl⟩, hrest⟩
  exact ⟨rfl, List.all_eq_true.mp (by decide), hapart⟩

theorem exists_takes_statement {s : Statement} (h : DerivesStatement ts s) (hends : Ends 0 us)
    (hfresh : Fresh xs) (hscan : scan 0 xs = some (ts ++ us)) :
    ∃ tree rest, grammar.Takes size false (.rule .statement) xs [tree] rest ∧
      (∀ others, buildStatements (tree :: others) =
        (buildStatements others).map (s :: ·)) ∧ scan 0 rest = some us := by
  cases h with
  | skip =>
      rcases exists_takes_skip hfresh hscan with ⟨rest, htakes, hrest⟩
      refine ⟨_, rest, (takes_silent_iff rfl).mpr (takes_choice_iff.mpr (Or.inl htakes)),
        fun others => ?_, hrest⟩
      rw [buildStatements]
  | @assign target ts value hvalue =>
      rcases exists_takes_named_expr (t := .assign) (s := ":=") (fun l hl => hl) hvalue hends
        hfresh hscan with ⟨tree, rest, hbody, hbuild, hrest⟩
      rcases exists_takes_normal (r := .assignment) rfl hbody with ⟨text, htakes⟩
      -- The word `skip` is tried first, and is not the name of the target.
      rcases exists_takes_ident hfresh hscan with ⟨-, -, -, -, -, hskip⟩
      refine ⟨_, rest,
        (takes_silent_iff rfl).mpr (takes_choice_iff.mpr (Or.inr ⟨hskip, htakes⟩)),
        fun others => ?_, hrest⟩
      simp only [buildStatements, hbuild, ParseTree.text]

/-- Nothing is taken from the end of the text. -/
theorem fails_statement_nil : grammar.Fails size false (.rule .statement) [] := by
  refine fails_of_not_takes fun trees rest h => ?_
  have hlt := ranks_grammar.length_lt (by decide) (by decide) h
  cases hlt

/-- At the end, or at a last semicolon, no other statement follows. -/
theorem takes_rounds_end (hus : us = [] ∨ us = [.semicolon]) (hscan : scan 0 xs = some us) :
    grammar.Takes size false (rounds (.seq (.text ";") (.rule .statement))) xs [] xs := by
  rcases exists_fresh hscan with ⟨sp, xs', hsp, hfresh, hxs'⟩
  refine takes_rounds_nil hsp ?_
  rcases hus with rfl | rfl
  · cases eq_nil_of_scan_nil hfresh hxs'
    exact fails_seq_of_left (fails_text_iff.mpr (by decide))
  · -- The round takes the semicolon, finds no statement and gives it back.
    rcases exists_takes_text (t := .semicolon) (s := ";") (fun l hl => hl) hfresh hxs' with
      ⟨ys, htext, hys⟩
    rcases exists_behind htext hys with ⟨ys', hfresh', hys', hbehind⟩
    cases eq_nil_of_scan_nil hfresh' hys'
    exact hbehind.fails fails_statement_nil

theorem ends_of_end (hus : us = [] ∨ us = [.semicolon]) (n : Nat) : Ends n us := by
  rcases hus with rfl | rfl
  · exact ends_nil n
  · exact ends_cons_of_none rfl

/-- Statements up to the end of the text, or up to a last semicolon. Behind the first one the
    rounds are taken from any text that has the tokens of the others. -/
theorem exists_takes_statements (size : Nat) {ss : List Statement} (h : DerivesStatements ts ss)
    (hus : us = [] ∨ us = [.semicolon]) (hfresh : Fresh xs)
    (hscan : scan 0 xs = some (ts ++ us)) :
    ∃ tree mid vs, grammar.Takes size false (.rule .statement) xs [tree] mid ∧
      scan 0 mid = some vs ∧ ∀ ys, scan 0 ys = some vs → ∃ trees rest,
        grammar.Takes size false (rounds (.seq (.text ";") (.rule .statement))) ys trees rest ∧
        (∀ others, buildStatements (tree :: (trees ++ others)) =
          (buildStatements others).map (ss ++ ·)) ∧ scan 0 rest = some us := by
  induction h generalizing xs with
  | @one ts s h =>
      rcases exists_takes_statement h (ends_of_end hus 0) hfresh hscan with
        ⟨tree, mid, htakes, hbuild, hmid⟩
      refine ⟨tree, mid, us, htakes, hmid, fun ys hys => ?_⟩
      exact ⟨[], ys, takes_rounds_end hus hys, fun others => hbuild _, hys⟩
  | @cons ts ts' s ss h hrest ih =>
      rw [List.append_assoc, List.cons_append] at hscan
      rcases exists_takes_statement h (ends_cons_of_none rfl) hfresh hscan with
        ⟨tree, mid, htakes, hbuild, hmid⟩
      refine ⟨tree, mid, _, htakes, hmid, fun ys hys => ?_⟩
      rcases exists_fresh hys with ⟨sp, ys', hsp, hfresh', hys'⟩
      rcases exists_takes_text (t := .semicolon) (s := ";") (fun l hl => hl) hfresh' hys' with
        ⟨zs, htext, hzs⟩
      rcases exists_behind htext hzs with ⟨zs', hfresh'', hzs', hbehind⟩
      rcases ih hfresh'' hzs' with ⟨tree', mid', vs, hnext, hmid', hothers⟩
      rcases hothers mid' hmid' with ⟨trees, rest, hrounds, hbuild', hend⟩
      refine ⟨[tree'] ++ trees, rest, takes_rounds_cons hsp (hbehind.takes hnext) hrounds,
        fun others => ?_, hend⟩
      rw [hbuild, List.singleton_append, List.cons_append, hbuild', Option.map_map]
      rfl

/-- The last semicolon is what the rounds have left, if it is there. -/
theorem exists_takes_last (size : Nat) (hus : us = [] ∨ us = [.semicolon]) (hfresh : Fresh xs)
    (hscan : scan 0 xs = some us) :
    ∃ rest, grammar.Takes size false (.opt (.text ";")) xs [] rest ∧ scan 0 rest = some [] := by
  rcases hus with rfl | rfl
  · cases eq_nil_of_scan_nil hfresh hscan
    exact ⟨[], takes_opt_iff.mpr (Or.inr ⟨fails_text_iff.mpr (by decide), rfl, rfl⟩), rfl⟩
  · rcases exists_takes_text (t := .semicolon) (s := ";") (fun l hl => hl) hfresh hscan with
      ⟨rest, htext, hrest⟩
    exact ⟨rest, takes_opt_iff.mpr (Or.inl htext), hrest⟩

theorem exists_takes_nonempty {ss : List Statement} (h : DerivesStatements ts ss)
    (hus : us = [] ∨ us = [.semicolon]) (hfresh : Fresh xs)
    (hscan : scan 0 xs = some (ts ++ us)) :
    ∃ trees rest, grammar.Takes size false (.opt statements) xs trees rest ∧
      (∀ others, buildStatements (trees ++ others) = (buildStatements others).map (ss ++ ·)) ∧
      scan 0 rest = some [] := by
  rcases exists_takes_statements size h hus hfresh hscan with
    ⟨tree, mid, vs, hfirst, hmid, hothers⟩
  rcases exists_behind hfirst hmid with ⟨ys, hfresh', hys, hbehind⟩
  rcases hothers ys hys with ⟨trees, zs, hrounds, hbuild, hzs⟩
  have hstar := takes_star_of_many hfresh'.takes_space hrounds
  rcases exists_behind hstar hzs with ⟨zs', hfresh'', hzs', hbehind'⟩
  rcases exists_takes_last size hus hfresh'' hzs' with ⟨rest, hlast, hrest⟩
  refine ⟨[tree] ++ (trees ++ []), rest, takes_opt_iff.mpr (Or.inl ?_), fun others => ?_, hrest⟩
  · exact hbehind.takes (hbehind'.takes hlast)
  · rw [List.append_nil, List.singleton_append, List.cons_append, hbuild]

theorem exists_takes_action {ss : List Statement} (h : DerivesAction ts ss) (hfresh : Fresh xs)
    (hscan : scan 0 xs = some ts) :
    ∃ trees rest, grammar.Takes size false (.opt statements) xs trees rest ∧
      (∀ others, buildStatements (trees ++ others) = (buildStatements others).map (ss ++ ·)) ∧
      scan 0 rest = some [] := by
  cases h with
  | empty =>
      cases eq_nil_of_scan_nil hfresh hscan
      refine ⟨[], [], takes_opt_iff.mpr (Or.inr ⟨?_, rfl, rfl⟩), fun others => ?_, rfl⟩
      · exact fails_seq_of_left fails_statement_nil
      · cases h : buildStatements others with
        | none => rw [List.nil_append, h]; rfl
        | some ss => rw [List.nil_append, h]; rfl
  | plain h =>
      rw [← List.append_nil ts] at hscan
      exact exists_takes_nonempty h (Or.inl rfl) hfresh hscan
  | closed h => exact exists_takes_nonempty h (Or.inr rfl) hfresh hscan

end Statements

section Texts

variable {text : String}

/-- Behind the space at the front, a text that is taken up to its end is read as a whole. -/
theorem exists_inner? {r : Rule} {e : Exp Rule} (hr : define r = ⟨.normal, whole e⟩)
    (hscan : scan 0 text.toList = some ts) :
    ∃ xs, Fresh xs ∧ scan 0 xs = some ts ∧ ∀ trees rest,
      grammar.Takes text.toList.length false e xs trees rest → scan 0 rest = some [] →
        ∃ last, inner? r text = some (trees ++ [.node .endOfInput last []]) := by
  have hstart : grammar.Takes text.toList.length false .start text.toList [] text.toList :=
    takes_start_iff.mpr ⟨rfl, rfl, rfl⟩
  rcases exists_behind hstart hscan with ⟨xs, hfresh, hxs, hbehind⟩
  refine ⟨xs, hfresh, hxs, fun trees rest h hrest => ?_⟩
  rcases exists_behind h hrest with ⟨ys, hfresh', hys, hbehind'⟩
  cases eq_nil_of_scan_nil hfresh' hys
  have hfinish : grammar.Takes text.toList.length false .finish [] [] [] :=
    takes_finish_iff.mpr ⟨rfl, rfl, rfl⟩
  rcases exists_takes_normal (r := .endOfInput) rfl hfinish with ⟨last, hend⟩
  rcases exists_takes_normal hr (hbehind.takes (hbehind'.takes hend)) with ⟨name, hparse⟩
  refine ⟨last, ?_⟩
  rw [inner?, parse, hparse]
  rfl

theorem condition?_eq : condition? = Expr.parse? := by
  funext text
  refine Option.ext fun e => ⟨fun h => ?_, fun h => ?_⟩
  · exact ((recognizes_conditions text).1 e).mpr (isText_of_condition? h)
  · rcases Expr.parse?_eq_some_iff.mp h with ⟨ts, hscan, hts⟩
    rcases exists_inner? (r := .condition) rfl hscan with ⟨xs, hfresh, hxs, hwhole⟩
    rw [← List.append_nil ts] at hxs
    rcases accepts_expr hts (ends_nil 0) hfresh hxs with ⟨tree, rest, htakes, hbuild, hrest⟩
    rcases hwhole _ rest htakes hrest with ⟨last, hinner⟩
    rw [condition?, hinner]
    exact hbuild

theorem action?_eq : action? = Statement.parse? := by
  funext text
  refine Option.ext fun ss => ⟨fun h => ?_, fun h => ?_⟩
  · exact ((recognizes_actions text).1 ss).mpr (isText_of_action? h)
  · rcases Statement.parse?_eq_some_iff.mp h with ⟨ts, hscan, hts⟩
    rcases exists_inner? (r := .action) rfl hscan with ⟨xs, hfresh, hxs, hwhole⟩
    rcases exists_takes_action hts hfresh hxs with ⟨trees, rest, htakes, hbuild, hrest⟩
    rcases hwhole trees rest htakes hrest with ⟨last, hinner⟩
    rw [action?, hinner, Option.bind_eq_bind, Option.bind_some, hbuild, buildStatements,
      buildStatements, Option.map_some, List.append_nil]

theorem oneSided?_eq : oneSided? = ChannelOp.parse? := by
  funext text
  refine Option.ext fun op => ⟨fun h => ?_, fun h => ?_⟩
  · exact ((recognizes_operations text).1 op).mpr (isText_of_oneSided? h)
  · rcases ChannelOp.parse?_eq_some_iff.mp h with ⟨ts, hscan, hts⟩
    rcases exists_inner? (r := .oneSided) rfl hscan with ⟨xs, hfresh, hxs, hwhole⟩
    rw [← List.append_nil ts] at hxs
    rcases exists_takes_channel hts (ends_nil 0) hfresh hxs with
      ⟨tree, rest, htakes, hbuild, hrest⟩
    rcases hwhole _ rest htakes hrest with ⟨last, hinner⟩
    rw [oneSided?, hinner]
    exact hbuild

theorem sync?_eq : sync? = ChannelOp.parsePair? := by
  funext text
  refine Option.ext fun ops => ⟨fun h => ?_, fun h => ?_⟩
  · exact ((recognizes_pairs text).1 ops).mpr (isText_of_sync? h)
  · rcases ops with ⟨first, second⟩
    rcases ChannelOp.parsePair?_eq_some_iff.mp h with ⟨ts, us, hscan, hfirst, hsecond⟩
    rcases exists_inner? (r := .sync) rfl hscan with ⟨xs, hfresh, hxs, hwhole⟩
    rcases exists_takes_channel hfirst (ends_cons_of_none rfl) hfresh hxs with
      ⟨tree, mid, htakes, hbuild, hmid⟩
    rcases exists_behind htakes hmid with ⟨ys, hfresh', hys, hbehind⟩
    rcases exists_takes_text (t := .bar) (s := "|") (fun l hl => hl) hfresh' hys with
      ⟨zs, hbar, hzs⟩
    rcases exists_behind hbar hzs with ⟨zs', hfresh'', hzs', hbehind'⟩
    rw [← List.append_nil us] at hzs'
    rcases exists_takes_channel hsecond (ends_nil 0) hfresh'' hzs' with
      ⟨tree', rest, htakes', hbuild', hrest⟩
    rcases hwhole _ rest (hbehind.takes (hbehind'.takes htakes')) hrest with ⟨last, hinner⟩
    rw [sync?, hinner]
    simp only [List.cons_append, List.nil_append, Option.bind_eq_bind, Option.bind_some, hbuild,
      hbuild']
    rfl

end Texts

end Dialect

/-- Conditions, actions, one-sided actions and rendezvous are read exactly where they are
    written in the language, and as what they stand for. The dialect reads them as well, so
    none of its choices is one too early and none of its repetitions takes too much; and where
    it accepts nothing it comes to an end. -/
theorem parse?_recognizes :
    (Recognizes Expr.parse? (Writes (.chained .disjunction)) ∧
      Recognizes Statement.parse? WritesAction ∧ Recognizes ChannelOp.parse? WritesOp ∧
      Recognizes ChannelOp.parsePair? WritesPair) ∧
    (Dialect.condition? = Expr.parse? ∧ Dialect.action? = Statement.parse? ∧
      Dialect.oneSided? = ChannelOp.parse? ∧ Dialect.sync? = ChannelOp.parsePair?) ∧
    ∀ rule text, ∃ outcome, Dialect.grammar.parse rule text = some outcome :=
  ⟨⟨recognizes_conditions, recognizes_actions, recognizes_operations, recognizes_pairs⟩,
    ⟨Dialect.condition?_eq, Dialect.action?_eq, Dialect.oneSided?_eq, Dialect.sync?_eq⟩,
    Dialect.ranks_grammar.exists_outcome⟩

end Script

end Interleaving
