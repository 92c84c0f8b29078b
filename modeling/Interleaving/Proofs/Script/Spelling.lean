import Interleaving.Proofs.Script.Grammar
import Interleaving.Proofs.Script.Scanning
import Mathlib.Data.List.TakeWhile
import Mathlib.Data.Nat.Init

/-!
# How Tokens Are Written

The texts of tokens, said without a scan. Every token has its lexemes, and a sequence of
tokens is spelled by writing a lexeme of each, with any amount of space in front of it.
Nothing is said about where a lexeme ends: `truex` is spelled by the name `truex`, and
also by `true` and the name `x`. The scan takes the longest, so of all the sequences a
text spells it finds one.

It finds the right one, if the sequence can be derived from the grammar. Then two
neighbours never join, because one alternates between the place before an operand and
the place after it. Before an operand only words, numbers, signs and parentheses begin,
and none of them begins with the second half of a longer sign. After an operand no word
and no number begins.

## Main definitions

* `Blank`, `IsName`, `IsNumeral`: Space, names and numbers as texts.
* `Token.Lexeme`: The texts of one token.
* `Spelled`: The texts of a sequence of tokens.
* `Place`: Before an operand, or after it.

## Theorems

* `spelled_of_scan`: The tokens that are found spell the text.
* `scan_of_walk`: If the places alternate, the tokens that spell a text are found.
* `Grammar.Derives.walk`, `Grammar.DerivesOp.walk`: In derivable sequences they do.
-/

namespace Interleaving

namespace Script

/-- Spaces, tabs and line ends, as many as there are. -/
def Blank (xs : List Char) : Prop :=
  ∀ x ∈ xs, isSpace x = true

/-- A word of letters, digits and underscores that does not begin with a digit, and is
    none of the three words with a meaning of their own. -/
def IsName (xs : List Char) : Prop :=
  (∃ c rest, xs = c :: rest ∧ isWordStart c = true ∧ ∀ d ∈ rest, isWordChar d = true) ∧
    xs ≠ ['t', 'r', 'u', 'e'] ∧ xs ≠ ['f', 'a', 'l', 's', 'e'] ∧ xs ≠ ['s', 'k', 'i', 'p']

/-- Digits that stand for a 64-bit integer. -/
def IsNumeral (xs : List Char) (n : Int64) : Prop :=
  xs ≠ [] ∧ (∀ d ∈ xs, d.isDigit = true) ∧ n.toInt = Text.valueOfDigits xs

/-- The texts of a token. -/
def Token.Lexeme : Token → List Char → Prop
  | ident name, xs => IsName xs ∧ name = String.ofList xs
  | number n, xs => IsNumeral xs n
  | bool true, xs => xs = ['t', 'r', 'u', 'e']
  | bool false, xs => xs = ['f', 'a', 'l', 's', 'e']
  | skip, xs => xs = ['s', 'k', 'i', 'p']
  | orOr, xs => xs = ['|', '|']
  | andAnd, xs => xs = ['&', '&']
  | eqEq, xs => xs = ['=', '=']
  | bangEq, xs => xs = ['!', '=']
  | less, xs => xs = ['<']
  | lessEq, xs => xs = ['<', '=']
  | greater, xs => xs = ['>']
  | greaterEq, xs => xs = ['>', '=']
  | plus, xs => xs = ['+']
  | minus, xs => xs = ['-']
  | star, xs => xs = ['*']
  | slash, xs => xs = ['/']
  | percent, xs => xs = ['%']
  | bang, xs => xs = ['!']
  | opening, xs => xs = ['(']
  | closing, xs => xs = [')']
  | assign, xs => xs = [':', '=']
  | semicolon, xs => xs = [';']
  | query, xs => xs = ['?']
  | bar, xs => xs = ['|']

open Token

/-- A lexeme of each token in turn, with space in front of it. -/
inductive Spelled : List Token → List Char → Prop where
  | nil : Spelled [] []
  | cons {b l xs : List Char} {t : Token} {ts : List Token} (hb : Blank b) (hl : t.Lexeme l)
      (hrest : Spelled ts xs) : Spelled (t :: ts) (b ++ (l ++ xs))

theorem Blank.cons {c : Char} {b : List Char} (hc : isSpace c = true) (hb : Blank b) :
    Blank (c :: b) := by
  intro x hx
  rcases List.mem_cons.mp hx with rfl | hx
  · exact hc
  · exact hb x hx

theorem blank_nil : Blank [] := by
  intro x hx
  cases hx

theorem Spelled.append {ts us : List Token} {xs ys : List Char} (h : Spelled ts xs)
    (h' : Spelled us ys) : Spelled (ts ++ us) (xs ++ ys) := by
  induction h with
  | nil => exact h'
  | cons hb hl _ ih =>
      rw [List.append_assoc, List.append_assoc]
      exact .cons hb hl ih

theorem spelled_singleton {t : Token} {b l : List Char} (hb : Blank b) (hl : t.Lexeme l) :
    Spelled [t] (b ++ l) := by
  have h := Spelled.cons hb hl .nil
  rwa [List.append_nil] at h

/-- A text of two sequences in turn falls into a text of each. -/
theorem Spelled.split {ts us : List Token} {xs : List Char} (h : Spelled (ts ++ us) xs) :
    ∃ ys zs, xs = ys ++ zs ∧ Spelled ts ys ∧ Spelled us zs := by
  induction ts generalizing xs with
  | nil => exact ⟨[], xs, rfl, .nil, h⟩
  | cons t ts ih =>
      cases h with
      | @cons b l xs _ _ hb hl hrest =>
          rcases ih hrest with ⟨ys, zs, rfl, hys, hzs⟩
          exact ⟨b ++ (l ++ ys), zs, by simp only [List.append_assoc], .cons hb hl hys, hzs⟩

theorem Spelled.exists_lexeme {t : Token} {xs : List Char} (h : Spelled [t] xs) :
    ∃ b l, xs = b ++ l ∧ Blank b ∧ t.Lexeme l := by
  cases h with
  | @cons b l _ _ _ hb hl hrest =>
      cases hrest
      exact ⟨b, l, by rw [List.append_nil], hb, hl⟩

section Found

theorem lexeme_ofWord {c : Char} {rest : List Char} (hc : isWordStart c = true)
    (hrest : ∀ d ∈ rest, isWordChar d = true) : (ofWord (c :: rest)).Lexeme (c :: rest) := by
  unfold ofWord
  split
  · next htrue => exact htrue
  · next htrue =>
    split
    · next hfalse => exact hfalse
    · next hfalse =>
      split
      · next hskip => exact hskip
      · next hskip => exact ⟨⟨⟨c, rest, rfl, hc, hrest⟩, htrue, hfalse, hskip⟩, rfl⟩

theorem lexeme_sign {c : Char} {rest : List Char} {t : Token} {more : Nat}
    (h : sign c rest = some (t, more)) : t.Lexeme (c :: rest.take more) := by
  unfold sign at h
  split at h <;> cases h <;> rfl

/-- The token that is found first is written in the characters it takes. -/
theorem lexeme_first {c : Char} {rest : List Char} {t : Token} {more : Nat}
    (h : first c rest = some (t, more)) : t.Lexeme (c :: rest.take more) := by
  have htake : ∀ p : Char → Bool, rest.take (rest.takeWhile p).length = rest.takeWhile p :=
    fun p => (List.prefix_iff_eq_take.mp (List.takeWhile_prefix p)).symm
  have hall : ∀ p : Char → Bool, ∀ d ∈ rest.takeWhile p, p d = true :=
    fun p d hd => List.mem_takeWhile_imp hd
  unfold first at h
  by_cases hword : isWordStart c = true
  · rw [if_pos hword] at h
    simp only [Option.some.injEq, Prod.mk.injEq] at h
    rw [← h.1, ← h.2, htake]
    exact lexeme_ofWord hword (hall isWordChar)
  · rw [if_neg hword] at h
    by_cases hdigit : c.isDigit = true
    · rw [if_pos hdigit] at h
      simp only [Option.map_eq_some_iff, ofDigits] at h
      rcases h with ⟨_, ⟨n, hn, rfl⟩, hpair⟩
      cases hpair
      rw [htake]
      refine ⟨List.cons_ne_nil _ _, ?_, checked_eq_some_iff.mp hn⟩
      intro d hd
      rcases List.mem_cons.mp hd with rfl | hd
      · exact hdigit
      · exact hall Char.isDigit d hd
    · rw [if_neg hdigit] at h
      exact lexeme_sign h

/-- The tokens that are found spell the text, up to space at its end. The induction is on
    the length of the text, for a token takes off several characters at once. -/
theorem spelled_of_scan {xs : List Char} {ts : List Token} (h : scan 0 xs = some ts) :
    ∃ ys b, xs = ys ++ b ∧ Blank b ∧ Spelled ts ys := by
  induction hn : xs.length using Nat.strong_induction_on generalizing xs ts with
  | _ n ih =>
    subst hn
    cases xs with
    | nil =>
        cases h
        exact ⟨[], [], rfl, blank_nil, .nil⟩
    | cons c rest =>
        rw [scan] at h
        by_cases hspace : isSpace c = true
        · rw [if_pos hspace] at h
          rcases ih rest.length (by simp) h rfl with ⟨ys, b, rfl, hb, hys⟩
          -- The space goes to the next token, or to the end if there is none.
          cases hys with
          | nil => exact ⟨[], c :: b, rfl, hb.cons hspace, .nil⟩
          | @cons b' l xs _ _ hb' hl hxs =>
              exact ⟨(c :: b') ++ (l ++ xs), b, rfl, hb, .cons (hb'.cons hspace) hl hxs⟩
        · rw [if_neg hspace] at h
          split at h
          · cases h
          · next t more hfirst =>
            rw [Option.map_eq_some_iff] at h
            rcases h with ⟨others, hothers, rfl⟩
            rw [scan_eq_scan_drop] at hothers
            have hshort : (rest.drop more).length < (c :: rest).length := by
              rw [List.length_drop, List.length_cons]
              omega
            rcases ih _ hshort hothers rfl with ⟨ys, b, hdrop, hb, hys⟩
            refine ⟨[] ++ ((c :: rest.take more) ++ ys), b, ?_, hb,
              .cons blank_nil (lexeme_first hfirst) hys⟩
            simp only [List.nil_append, List.cons_append, List.append_assoc, ← hdrop,
              List.take_append_drop]

end Found

section Characters

theorem isSpace_eq_false_of_isWordChar {c : Char} (h : isWordChar c = true) :
    isSpace c = false := by
  cases hspace : isSpace c with
  | false => rfl
  | true =>
      simp only [isSpace, Bool.or_eq_true, beq_iff_eq] at hspace
      rcases hspace with ((rfl | rfl) | rfl) | rfl <;> exact absurd h (by decide)

theorem isWordChar_of_isWordStart {c : Char} (h : isWordStart c = true) : isWordChar c = true := by
  simp only [isWordStart, isWordChar, Char.isAlphanum, Bool.or_eq_true] at h ⊢
  exact h.imp_left Or.inl

theorem isWordChar_of_isDigit {c : Char} (h : c.isDigit = true) : isWordChar c = true := by
  simp only [isWordChar, Char.isAlphanum, h, Bool.or_true, Bool.true_or]

/-- All characters a word can begin with come after the digits. -/
theorem isWordStart_eq_false_of_isDigit {c : Char} (h : c.isDigit = true) :
    isWordStart c = false := by
  have hdigit : c.val ≤ '9'.val := of_decide_eq_true (Bool.and_eq_true_iff.mp h).2
  cases hstart : isWordStart c with
  | false => rfl
  | true =>
      rcases Bool.or_eq_true_iff.mp hstart with halpha | hunderscore
      · rcases Bool.or_eq_true_iff.mp halpha with hupper | hlower
        · have hletter : 'A'.val ≤ c.val ∧ c.val ≤ 'Z'.val := of_decide_eq_true hupper
          exact absurd (Nat.le_trans hletter.1 hdigit) (by decide)
        · have hletter : 'a'.val ≤ c.val :=
            of_decide_eq_true (Bool.and_eq_true_iff.mp hlower).1
          exact absurd (Nat.le_trans hletter hdigit) (by decide)
      · rw [eq_of_beq hunderscore] at hdigit
        exact absurd hdigit (by decide)

end Characters

section Neighbours

/-- The first token of a lexeme is the whole lexeme. -/
theorem first_of_lexeme {t : Token} {l : List Char} (h : t.Lexeme l) :
    ∃ c rest, l = c :: rest ∧ isSpace c = false ∧ first c rest = some (t, rest.length) := by
  have htake : ∀ {p : Char → Bool} {rest : List Char}, (∀ d ∈ rest, p d = true) →
      rest.takeWhile p = rest := fun hp => List.takeWhile_eq_self_iff.mpr hp
  cases t with
  | ident name =>
      rcases h with ⟨⟨⟨c, rest, rfl, hc, hrest⟩, htrue, hfalse, hskip⟩, rfl⟩
      refine ⟨c, rest, rfl, isSpace_eq_false_of_isWordChar (isWordChar_of_isWordStart hc), ?_⟩
      simp only [first, hc, if_true, htake hrest, ofWord, htrue, hfalse, hskip, if_false]
  | number n =>
      rcases h with ⟨hne, hdigits, hvalue⟩
      rcases List.exists_cons_of_ne_nil hne with ⟨c, rest, rfl⟩
      have hc := hdigits c List.mem_cons_self
      have hrest := fun d hd => hdigits d (List.mem_cons_of_mem c hd)
      refine ⟨c, rest, rfl, isSpace_eq_false_of_isWordChar (isWordChar_of_isDigit hc), ?_⟩
      simp only [first, isWordStart_eq_false_of_isDigit hc, Bool.false_eq_true, if_false, hc,
        if_true, htake hrest, ofDigits, checked_eq_some_iff.mpr hvalue, Option.map_some]
  | bool b =>
      cases b with
      | true =>
          cases h
          exact ⟨_, _, rfl, by decide, by decide⟩
      | false =>
          cases h
          exact ⟨_, _, rfl, by decide, by decide⟩
  | _ =>
      cases h
      exact ⟨_, _, rfl, by decide, by decide⟩

/-- A lexeme at the front of a text is found, if what follows does not join it. -/
theorem scan_lexeme {t : Token} {l zs : List Char} (h : t.Lexeme l)
    (hz : ∀ z zs', zs = z :: zs' → joins t z = false) :
    scan 0 (l ++ zs) = (scan 0 zs).map (t :: ·) := by
  rcases first_of_lexeme h with ⟨c, rest, rfl, hspace, hfirst⟩
  -- The lexeme ends where the first token does, with or without what follows.
  have hfound : first c (rest ++ zs) = some (t, rest.length) := by
    cases zs with
    | nil => rwa [List.append_nil]
    | cons z zs => exact first_append hfirst (hz z zs rfl) zs
  rw [List.cons_append, scan, if_neg (by rw [hspace]; exact Bool.false_ne_true), hfound]
  simp only [scan_eq_scan_drop rest.length, List.drop_left]

theorem scan_blank {b : List Char} (hb : Blank b) (xs : List Char) :
    scan 0 (b ++ xs) = scan 0 xs := by
  induction b with
  | nil => rfl
  | cons c b ih =>
      rw [List.cons_append, scan, if_pos (hb c List.mem_cons_self)]
      exact ih fun x hx => hb x (List.mem_cons_of_mem c hx)

/-- Where one stands in a text. -/
inductive Place where
  /-- An operand comes next. -/
  | before
  /-- An operand has come to its end. -/
  | after

namespace Place

/-- Where one stands behind a token, if the token may stand here. -/
def next? : Place → Token → Option Place
  | before, .ident _ => some after
  | before, .bool _ => some after
  | before, .number _ => some after
  | before, .skip => some after
  | before, .bang => some before
  | before, .minus => some before
  | before, .opening => some before
  | before, _ => none
  | after, .ident _ => none
  | after, .bool _ => none
  | after, .number _ => none
  | after, .skip => none
  | after, .opening => none
  | after, .closing => some after
  | after, _ => some before

/-- Where one stands behind a sequence of tokens. -/
def walk (place : Place) (ts : List Token) : Option Place :=
  ts.foldlM next? place

variable {p q r : Place} {t u : Token} {ts us : List Token} {z : Char} {rest : List Char}

theorem walk_nil : p.walk [] = some p :=
  rfl

theorem walk_cons_eq_some_iff :
    p.walk (t :: ts) = some r ↔ ∃ q, p.next? t = some q ∧ q.walk ts = some r := by
  rw [walk, List.foldlM_cons, Option.bind_eq_bind, Option.bind_eq_some_iff]
  rfl

theorem walk_cons (h : p.next? t = some q) (hts : q.walk ts = some r) :
    p.walk (t :: ts) = some r :=
  walk_cons_eq_some_iff.mpr ⟨q, h, hts⟩

theorem walk_append (hts : p.walk ts = some q) (hus : q.walk us = some r) :
    p.walk (ts ++ us) = some r := by
  unfold walk at hts hus ⊢
  rw [List.foldlM_append, hts]
  exact hus

/-- Before an operand, nothing begins with the second half of a longer sign. -/
theorem ne_of_next?_before (h : before.next? u = some q) (hu : u.Lexeme (z :: rest)) :
    z ≠ '=' ∧ z ≠ '|' := by
  have hword : isWordChar z = true → z ≠ '=' ∧ z ≠ '|' := by
    intro hz
    constructor <;> (rintro rfl; exact absurd hz (by decide))
  cases u with
  | ident name =>
      rcases hu with ⟨⟨⟨c, rest', hcons, hc, -⟩, -⟩, -⟩
      cases hcons
      exact hword (isWordChar_of_isWordStart hc)
  | number n => exact hword (isWordChar_of_isDigit (hu.2.1 z List.mem_cons_self))
  | bool b => cases b <;> cases hu <;> decide
  | skip => cases hu; decide
  | bang => cases hu; decide
  | minus => cases hu; decide
  | opening => cases hu; decide
  | _ => cases h

/-- After an operand, no word and no number begins. -/
theorem not_isWordChar_of_next?_after (h : after.next? u = some q)
    (hu : u.Lexeme (z :: rest)) : isWordChar z = false := by
  cases u with
  | ident name => cases h
  | number n => cases h
  | bool b => cases h
  | skip => cases h
  | opening => cases h
  | _ => cases hu; decide

theorem joins_of_next?_before (h : p.next? t = some before) (hjoins : joins t z = true) :
    z = '=' ∨ z = '|' := by
  cases t with
  | ident name => cases p <;> cases h
  | bool b => cases p <;> cases h
  | number n => cases p <;> cases h
  | skip => cases p <;> cases h
  | bar => exact Or.inr (eq_of_beq hjoins)
  | bang => exact Or.inl (eq_of_beq hjoins)
  | less => exact Or.inl (eq_of_beq hjoins)
  | greater => exact Or.inl (eq_of_beq hjoins)
  | _ => exact absurd hjoins Bool.false_ne_true

theorem joins_of_next?_after (h : p.next? t = some after) (hjoins : joins t z = true) :
    isWordChar z = true := by
  cases t with
  | ident name => exact hjoins
  | bool b => exact hjoins
  | skip => exact hjoins
  | number n => exact isWordChar_of_isDigit hjoins
  | closing => exact absurd hjoins Bool.false_ne_true
  | _ => cases p <;> cases h

/-- Neighbours do not join. -/
theorem joins_eq_false (ht : p.next? t = some q) (hu : q.next? u = some r)
    (hlexeme : u.Lexeme (z :: rest)) : joins t z = false := by
  cases hjoins : joins t z with
  | false => rfl
  | true =>
      cases q with
      | before =>
          have hne := ne_of_next?_before hu hlexeme
          rcases joins_of_next?_before ht hjoins with rfl | rfl
          · exact absurd rfl hne.1
          · exact absurd rfl hne.2
      | after =>
          have hword := joins_of_next?_after ht hjoins
          rw [not_isWordChar_of_next?_after hu hlexeme] at hword
          cases hword

theorem joins_space (hz : isSpace z = true) (t : Token) : joins t z = false := by
  simp only [isSpace, Bool.or_eq_true, beq_iff_eq] at hz
  rcases hz with ((rfl | rfl) | rfl) | rfl <;> cases t <;> rfl

end Place

/-- A text begins with space or with a lexeme of its first token. -/
theorem Spelled.head_cases {ts : List Token} {xs b zs : List Char} {z : Char}
    (h : Spelled ts xs) (hb : Blank b) (hz : xs ++ b = z :: zs) :
    isSpace z = true ∨ ∃ u us rest, ts = u :: us ∧ u.Lexeme (z :: rest) := by
  cases h with
  | nil =>
      rw [List.nil_append] at hz
      exact Or.inl (hb z (hz ▸ List.mem_cons_self))
  | @cons b' l xs u us hb' hl hrest =>
      cases b' with
      | cons c b' =>
          cases hz
          exact Or.inl (hb' z List.mem_cons_self)
      | nil =>
          rcases first_of_lexeme hl with ⟨c, rest, rfl, -, -⟩
          cases hz
          exact Or.inr ⟨u, us, rest, rfl, hl⟩

/-- If the places alternate as they should, the tokens that spell a text are those that
    are found in it. -/
theorem scan_of_walk {ts : List Token} {ys b : List Char} (h : Spelled ts ys) (hb : Blank b)
    {p q : Place} (hwalk : p.walk ts = some q) : scan 0 (ys ++ b) = some ts := by
  induction h generalizing p with
  | nil =>
      have := scan_blank hb []
      rwa [List.append_nil] at this
  | @cons b' l xs t ts hb' hl hrest ih =>
      rcases Place.walk_cons_eq_some_iff.mp hwalk with ⟨place, ht, hts⟩
      -- What comes next is space, or it begins a token that may stand there.
      have happart : ∀ z zs, xs ++ b = z :: zs → joins t z = false := by
        intro z zs hz
        rcases hrest.head_cases hb hz with hspace | ⟨u, us, rest, rfl, hu⟩
        · exact Place.joins_space hspace t
        · rcases Place.walk_cons_eq_some_iff.mp hts with ⟨place', hnext, -⟩
          exact Place.joins_eq_false ht hnext hu
      rw [List.append_assoc, List.append_assoc, scan_blank hb', scan_lexeme hl happart, ih hts,
        Option.map_some]

end Neighbours

namespace Grammar

/-- Where one stands before a part of an expression. -/
def Part.place : Part → Place
  | after _ _ => .after
  | _ => .before

theorem next?_of_tightness? {token : Token} {n : Nat} (h : tightness? token = some n) :
    Place.after.next? token = some .before := by
  cases token <;> first | rfl | cases h

/-- An expression leads from the place before an operand to the place after it. -/
theorem Derives.walk {part : Part} {ts : List Token} {e : Expr} (h : Derives part ts e) :
    part.place.walk ts = some .after := by
  have hoperand : ∀ level : Level, level.operand.place = .before := by
    intro level
    cases level <;> rfl
  induction h with
  | @chain level ts us left e hfirst hrest ihfirst ihrest =>
      rw [hoperand level] at ihfirst
      exact Place.walk_append ihfirst ihrest
  | done => rfl
  | @more level token op ts us left right e hop hright hrest ihright ihrest =>
      rw [hoperand level] at ihright
      exact Place.walk_cons (next?_of_tightness? (tightness?_of_operator? hop))
        (Place.walk_append ihright ihrest)
  | uncompared hsum ih => exact ih
  | compared hop hleft hright ihleft ihright =>
      exact Place.walk_append ihleft
        (Place.walk_cons (next?_of_tightness? (tightness?_of_comparisonOp? hop)) ihright)
  | not hoperand ih => exact Place.walk_cons rfl ih
  | neg hoperand ih => exact Place.walk_cons rfl ih
  | unsigned hprimary ih => exact ih
  | bool b => rfl
  | number n => rfl
  | ident name => rfl
  | parens hinner ih =>
      exact Place.walk_cons rfl (Place.walk_append ih (Place.walk_cons rfl Place.walk_nil))

theorem DerivesOp.walk {ts : List Token} {op : ChannelOp} (h : DerivesOp ts op) :
    Place.before.walk ts = some .after := by
  cases h with
  | send channel hvalue => exact Place.walk_cons rfl (Place.walk_cons rfl hvalue.walk)
  | receive channel target => rfl

end Grammar

end Script

end Interleaving
