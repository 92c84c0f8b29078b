import Interleaving.Script.Token

/-!
# Scanning Joined Texts

The tokens of a text that is put together from two others. A token is as long as
it can be, so what follows a token matters: a bar in front of another bar is the
first half of `||`. The tokens of `a ++ b` are those of `a` and those of `b` unless
the first character of `b` joins one of the tokens of `a`.

The other way, a text is cut where a separator stands among its tokens. The two
pieces have the tokens before and after the separator, because a token of the
first piece does not look past the end of that piece, and what stands there
in the whole text cannot have been part of it.

Both go along the recursion of `Token.scan`. Its count of passed characters stays
below the length of the first piece, for a token never ends after it.

## Main definitions

* `Token.joins`: A token and a character that would be scanned together.
* `Token.WrittenAs`: A token that is one character, however the text goes on.

## Theorems

* `Token.first_append`, `Token.first_of_append`: The first token of a joined text
  and of its first piece.
* `Token.scan_append`: The tokens of a joined text.
* `Token.scan_split`: The pieces of a text around a separator.
-/

namespace Interleaving

namespace Script

namespace Token

/-- The token is longer or another one if `z` follows it directly. -/
def joins : Token → Char → Bool
  | ident _, z => isWordChar z
  | bool _, z => isWordChar z
  | skip, z => isWordChar z
  | number _, z => z.isDigit
  | bar, z => z == '|'
  | bang, z => z == '='
  | less, z => z == '='
  | greater, z => z == '='
  | _, _ => false

theorem joins_ofWord (word : List Char) (z : Char) : joins (ofWord word) z = isWordChar z := by
  unfold ofWord
  split
  · rfl
  · split
    · rfl
    · split <;> rfl

theorem joins_of_ofDigits {digits : List Char} {token : Token} (h : ofDigits digits = some token)
    (z : Char) : joins token z = z.isDigit := by
  rw [ofDigits, Option.map_eq_some_iff] at h
  rcases h with ⟨n, -, rfl⟩
  rfl

theorem takeWhile_append_of_not {p : Char → Bool} {z : Char} (hz : p z = false)
    (xs zs : List Char) : (xs ++ z :: zs).takeWhile p = xs.takeWhile p := by
  induction xs with
  | nil => simp [hz]
  | cons x xs ih => simp only [List.cons_append, List.takeWhile_cons, ih]

theorem takeWhile_of_append {p : Char → Bool} {xs zs : List Char}
    (h : ((xs ++ zs).takeWhile p).length ≤ xs.length) :
    (xs ++ zs).takeWhile p = xs.takeWhile p := by
  induction xs with
  | nil =>
      rw [List.length_nil, Nat.le_zero, List.length_eq_zero_iff] at h
      simpa using h
  | cons x xs ih =>
      simp only [List.cons_append, List.takeWhile_cons] at h ⊢
      split
      · next hx =>
        rw [if_pos hx, List.length_cons, List.length_cons] at h
        rw [ih (by omega)]
      · rfl

/-- The signs that are two characters long. -/
def pairSign? : Char → Char → Option Token
  | '|', '|' => some orOr
  | '&', '&' => some andAnd
  | '=', '=' => some eqEq
  | '!', '=' => some bangEq
  | '<', '=' => some lessEq
  | '>', '=' => some greaterEq
  | ':', '=' => some assign
  | _, _ => none

theorem sign_cons_of_pair {c d : Char} {token : Token} (h : pairSign? c d = some token)
    (rest : List Char) : sign c (d :: rest) = some (token, 1) := by
  unfold pairSign? at h
  split at h <;> cases h <;> rfl

/-- Where no longer sign is possible, a sign is what it would be at the end. -/
theorem sign_cons_of_not_pair {c d : Char} (h : pairSign? c d = none) (rest : List Char) :
    sign c (d :: rest) = sign c [] := by
  unfold pairSign? at h
  split at h
  case h_8 =>
    unfold sign
    split <;> simp_all
  all_goals cases h

theorem eq_zero_of_sign_nil {c : Char} {token : Token} {more : Nat}
    (h : sign c [] = some (token, more)) : more = 0 := by
  unfold sign at h
  split at h <;> cases h <;> first | rfl | contradiction

theorem joins_of_pairSign? {c d : Char} {token longer : Token} {more : Nat}
    (h : sign c [] = some (token, more)) (hpair : pairSign? c d = some longer) :
    joins token d = true := by
  unfold pairSign? at hpair
  split at hpair <;> cases hpair <;> cases h <;> rfl

/-- A sign is two characters long, or it is what it would be at the end. -/
theorem sign_cases {c d : Char} {rest : List Char} {token : Token} {more : Nat}
    (h : sign c (d :: rest) = some (token, more)) :
    (pairSign? c d = some token ∧ more = 1) ∨
      (pairSign? c d = none ∧ sign c [] = some (token, more) ∧ more = 0) := by
  cases hpair : pairSign? c d with
  | some longer =>
      rw [sign_cons_of_pair hpair] at h
      cases h
      exact Or.inl ⟨rfl, rfl⟩
  | none =>
      rw [sign_cons_of_not_pair hpair] at h
      exact Or.inr ⟨rfl, h, eq_zero_of_sign_nil h⟩

theorem sign_append {c z : Char} {rest : List Char} {token : Token} {more : Nat}
    (h : sign c rest = some (token, more)) (hz : joins token z = false) (zs : List Char) :
    sign c (rest ++ z :: zs) = some (token, more) := by
  cases rest with
  | nil =>
      -- At the end of the piece a longer sign would need the character `z`.
      have hpair : pairSign? c z = none := by
        cases hpair : pairSign? c z with
        | none => rfl
        | some longer => rw [joins_of_pairSign? h hpair] at hz; cases hz
      rw [List.nil_append, sign_cons_of_not_pair hpair, h]
  | cons d rest =>
      rcases sign_cases h with ⟨hpair, rfl⟩ | ⟨hpair, hnil, -⟩
      · exact sign_cons_of_pair hpair _
      · rw [List.cons_append, sign_cons_of_not_pair hpair, hnil]

theorem sign_of_append {c : Char} {rest zs : List Char} {token : Token} {more : Nat}
    (h : sign c (rest ++ zs) = some (token, more)) (hmore : more ≤ rest.length) :
    sign c rest = some (token, more) := by
  cases rest with
  | nil =>
      cases zs with
      | nil => exact h
      | cons d zs =>
          rw [List.length_nil] at hmore
          rcases sign_cases h with ⟨-, rfl⟩ | ⟨-, hnil, -⟩
          · omega
          · exact hnil
  | cons d rest =>
      rcases sign_cases h with ⟨hpair, rfl⟩ | ⟨hpair, hnil, -⟩
      · exact sign_cons_of_pair hpair rest
      · rw [sign_cons_of_not_pair hpair, hnil]

theorem length_le_of_sign {c : Char} {rest : List Char} {token : Token} {more : Nat}
    (h : sign c rest = some (token, more)) : more ≤ rest.length := by
  cases rest with
  | nil => exact Nat.le_of_eq (eq_zero_of_sign_nil h)
  | cons d rest =>
      rw [List.length_cons]
      rcases sign_cases h with ⟨-, rfl⟩ | ⟨-, -, rfl⟩
      · omega
      · omega

/-- The first token stays what it is if nothing that follows joins it. -/
theorem first_append {c z : Char} {rest : List Char} {token : Token} {more : Nat}
    (h : first c rest = some (token, more)) (hz : joins token z = false) (zs : List Char) :
    first c (rest ++ z :: zs) = some (token, more) := by
  unfold first at h ⊢
  by_cases hword : isWordStart c = true
  · rw [if_pos hword] at h ⊢
    simp only [Option.some.injEq, Prod.mk.injEq] at h ⊢
    have hnot : isWordChar z = false := by
      rw [← hz, ← h.1, joins_ofWord]
    rw [takeWhile_append_of_not hnot]
    exact h
  · rw [if_neg hword] at h ⊢
    by_cases hdigit : c.isDigit = true
    · rw [if_pos hdigit] at h ⊢
      simp only [Option.map_eq_some_iff] at h ⊢
      rcases h with ⟨number, hnumber, hpair⟩
      cases hpair
      rw [joins_of_ofDigits hnumber] at hz
      rw [takeWhile_append_of_not hz]
      exact ⟨token, hnumber, rfl⟩
    · rw [if_neg hdigit] at h ⊢
      exact sign_append h hz zs

/-- What follows the piece that holds the first token does not matter to it. -/
theorem first_of_append {c : Char} {rest zs : List Char} {token : Token} {more : Nat}
    (h : first c (rest ++ zs) = some (token, more)) (hmore : more ≤ rest.length) :
    first c rest = some (token, more) := by
  unfold first at h ⊢
  by_cases hword : isWordStart c = true
  · rw [if_pos hword] at h ⊢
    simp only [Option.some.injEq, Prod.mk.injEq] at h ⊢
    rw [takeWhile_of_append (h.2 ▸ hmore)] at h
    exact h
  · rw [if_neg hword] at h ⊢
    by_cases hdigit : c.isDigit = true
    · rw [if_pos hdigit] at h ⊢
      simp only [Option.map_eq_some_iff] at h ⊢
      rcases h with ⟨number, hnumber, hpair⟩
      cases hpair
      rw [takeWhile_of_append hmore] at hnumber ⊢
      exact ⟨token, hnumber, rfl⟩
    · rw [if_neg hdigit] at h ⊢
      exact sign_of_append h hmore

theorem length_le_of_first {c : Char} {rest : List Char} {token : Token} {more : Nat}
    (h : first c rest = some (token, more)) : more ≤ rest.length := by
  unfold first at h
  by_cases hword : isWordStart c = true
  · rw [if_pos hword] at h
    simp only [Option.some.injEq, Prod.mk.injEq] at h
    rw [← h.2]
    exact (List.takeWhile_prefix isWordChar).length_le
  · rw [if_neg hword] at h
    by_cases hdigit : c.isDigit = true
    · rw [if_pos hdigit] at h
      simp only [Option.map_eq_some_iff] at h
      rcases h with ⟨number, hnumber, hpair⟩
      cases hpair
      exact (List.takeWhile_prefix Char.isDigit).length_le
    · rw [if_neg hdigit] at h
      exact length_le_of_sign h

/-- The tokens of a joined text are those of the two pieces, if the second one
    joins no token of the first. -/
theorem scan_append {z : Char} (zs : List Char) {passed : Nat} {xs : List Char}
    {tokens : List Token} (h : scan passed xs = some tokens) (hpassed : passed ≤ xs.length)
    (hz : ∀ token ∈ tokens, joins token z = false) :
    scan passed (xs ++ z :: zs) = (scan 0 (z :: zs)).map (tokens ++ ·) := by
  induction xs generalizing passed tokens with
  | nil =>
      rw [List.length_nil, Nat.le_zero] at hpassed
      subst hpassed
      cases h
      simp
  | cons c rest ih =>
      cases passed with
      | succ passed =>
          rw [scan] at h
          exact ih h (Nat.le_of_succ_le_succ hpassed) hz
      | zero =>
          rw [scan] at h
          rw [List.cons_append, scan]
          by_cases hspace : isSpace c = true
          · rw [if_pos hspace] at h ⊢
            exact ih h (Nat.zero_le _) hz
          · rw [if_neg hspace] at h ⊢
            split at h
            · cases h
            · next token more hfirst =>
              -- The first token is the same with and without the second piece, so the
              -- same number of characters is passed over.
              rw [Option.map_eq_some_iff] at h
              rcases h with ⟨others, hothers, rfl⟩
              rw [first_append hfirst (hz token List.mem_cons_self) zs]
              have hrest := ih hothers (length_le_of_first hfirst)
                fun t ht => hz t (List.mem_cons_of_mem token ht)
              simp only [hrest, Option.map_map]
              rfl

/-- The token is the one character `z`. -/
def WrittenAs (separator : Token) (z : Char) : Prop :=
  ∀ c rest more, first c rest = some (separator, more) → c = z ∧ more = 0

/-- A text with a separator among its tokens falls into two pieces there. -/
theorem scan_split {separator : Token} {z : Char} (hwritten : WrittenAs separator z)
    {passed : Nat} {xs : List Char} {before later : List Token}
    (h : scan passed xs = some (before ++ separator :: later)) (hpassed : passed ≤ xs.length) :
    ∃ ys zs, xs = ys ++ z :: zs ∧ passed ≤ ys.length ∧ scan passed ys = some before ∧
      scan 0 zs = some later := by
  induction xs generalizing passed before with
  | nil =>
      cases passed <;> simp [scan] at h
  | cons c rest ih =>
      cases passed with
      | succ passed =>
          rw [scan] at h
          rcases ih h (Nat.le_of_succ_le_succ hpassed) with ⟨ys, zs, rfl, hle, hys, hzs⟩
          exact ⟨c :: ys, zs, rfl, Nat.succ_le_succ hle, hys, hzs⟩
      | zero =>
          rw [scan] at h
          by_cases hspace : isSpace c = true
          · rw [if_pos hspace] at h
            rcases ih h (Nat.zero_le _) with ⟨ys, zs, rfl, -, hys, hzs⟩
            refine ⟨c :: ys, zs, rfl, Nat.zero_le _, ?_, hzs⟩
            rw [scan, if_pos hspace, hys]
          · rw [if_neg hspace] at h
            split at h
            · cases h
            · next token more hfirst =>
              rw [Option.map_eq_some_iff] at h
              rcases h with ⟨others, hothers, hcons⟩
              cases before with
              | nil =>
                  -- The separator is the first token, and the cut is here.
                  cases hcons
                  rcases hwritten c rest more hfirst with ⟨rfl, rfl⟩
                  exact ⟨[], rest, rfl, Nat.zero_le _, rfl, hothers⟩
              | cons token' before =>
                  -- The cut is further on, and the first token ends before it.
                  cases hcons
                  rcases ih hothers (length_le_of_first hfirst) with ⟨ys, zs, rfl, hle, hys, hzs⟩
                  refine ⟨c :: ys, zs, rfl, Nat.zero_le _, ?_, hzs⟩
                  rw [scan, if_neg hspace, first_of_append hfirst hle]
                  simp only [hys, Option.map_some]

theorem bar_writtenAs : WrittenAs .bar '|' := by
  intro c rest more h
  unfold first at h
  by_cases hword : isWordStart c = true
  · -- A letter would join a word, but it does not join a bar.
    rw [if_pos hword] at h
    simp only [Option.some.injEq, Prod.mk.injEq] at h
    have hjoins := joins_ofWord (c :: rest.takeWhile isWordChar) 'a'
    rw [h.1] at hjoins
    exact absurd hjoins (by decide)
  · rw [if_neg hword] at h
    by_cases hdigit : c.isDigit = true
    · rw [if_pos hdigit] at h
      simp only [Option.map_eq_some_iff] at h
      rcases h with ⟨number, hnumber, hpair⟩
      cases hpair
      exact absurd (joins_of_ofDigits hnumber '0') (by decide)
    · rw [if_neg hdigit] at h
      unfold sign at h
      split at h <;> cases h
      exact ⟨rfl, rfl⟩

theorem joins_bar_eq_false {token : Token} (h : token ≠ .bar) : joins token '|' = false := by
  cases token <;> first | rfl | exact absurd rfl h

theorem first_bar (rest : List Char) :
    first '|' rest = some (.bar, 0) ∨
      (∃ rest', rest = '|' :: rest') ∧ first '|' rest = some (.orOr, 1) := by
  cases rest with
  | nil => exact Or.inl rfl
  | cons d rest =>
      by_cases hd : d = '|'
      · subst hd
        exact Or.inr ⟨⟨rest, rfl⟩, rfl⟩
      · have hsign : first '|' (d :: rest) = sign '|' (d :: rest) := rfl
        rw [hsign]
        simp [sign, hd]

/-- A bar at the front of a text is a token or the first half of `||`. -/
theorem scan_bar_cases {rest : List Char} {tokens : List Token}
    (h : scan 0 ('|' :: rest) = some tokens) :
    ∃ others, tokens = .bar :: others ∨ tokens = .orOr :: others := by
  rw [scan, if_neg (by decide)] at h
  rcases first_bar rest with hfirst | ⟨-, hfirst⟩
  · rw [hfirst] at h
    simp only [Option.map_eq_some_iff] at h
    rcases h with ⟨others, -, rfl⟩
    exact ⟨others, Or.inl rfl⟩
  · rw [hfirst] at h
    simp only [Option.map_eq_some_iff] at h
    rcases h with ⟨others, -, rfl⟩
    exact ⟨others, Or.inr rfl⟩

theorem scan_bar_of_ident {rest : List Char} {name : String} {tokens : List Token}
    (h : scan 0 rest = some (.ident name :: tokens)) :
    scan 0 ('|' :: rest) = some (.bar :: .ident name :: tokens) := by
  rw [scan, if_neg (by decide)]
  rcases first_bar rest with hfirst | ⟨⟨rest', rfl⟩, -⟩
  · simp only [hfirst, h, Option.map_some]
  · rcases scan_bar_cases h with ⟨others, hcons | hcons⟩
    · cases hcons
    · cases hcons

theorem scan_append_bar {xs : List Char} {tokens : List Token} (h : scan 0 xs = some tokens)
    (hbar : .bar ∉ tokens) (zs : List Char) :
    scan 0 (xs ++ '|' :: zs) = (scan 0 ('|' :: zs)).map (tokens ++ ·) := by
  refine scan_append zs h (Nat.zero_le _) ?_
  intro token htoken
  exact joins_bar_eq_false fun heq => hbar (heq ▸ htoken)

/-- A text has more tokens when a bar is added to it. -/
theorem scan_append_bar_ne {xs : List Char} {tokens : List Token} (h : scan 0 xs = some tokens)
    (hbar : .bar ∉ tokens) (zs : List Char) : scan 0 (xs ++ '|' :: zs) ≠ some tokens := by
  rw [scan_append_bar h hbar zs]
  intro hmap
  rw [Option.map_eq_some_iff] at hmap
  rcases hmap with ⟨others, hothers, happend⟩
  rw [List.append_right_eq_self] at happend
  subst happend
  rcases scan_bar_cases hothers with ⟨_, hnil | hnil⟩
  · cases hnil
  · cases hnil

/-- A text is cut at a bar in one way, if the tokens of the first piece are given. -/
theorem eq_of_append_bar_eq {xs xs' ys ys' : List Char} {tokens : List Token}
    (h : scan 0 xs = some tokens) (h' : scan 0 xs' = some tokens) (hbar : .bar ∉ tokens)
    (heq : xs ++ '|' :: ys = xs' ++ '|' :: ys') : xs = xs' := by
  -- One of the two pieces goes on where the other one ends, and if it goes on at
  -- all then with the bar.
  rcases List.append_eq_append_iff.mp heq with ⟨zs, hxs', hzs⟩ | ⟨zs, hxs, hzs⟩
  · cases zs with
    | nil => rw [hxs', List.append_nil]
    | cons z zs =>
        rw [List.cons_append, List.cons.injEq] at hzs
        rw [hxs', ← hzs.1] at h'
        exact absurd h' (scan_append_bar_ne h hbar zs)
  · cases zs with
    | nil => rw [hxs, List.append_nil]
    | cons z zs =>
        rw [List.cons_append, List.cons.injEq] at hzs
        rw [hxs, ← hzs.1] at h
        exact absurd h (scan_append_bar_ne h' hbar zs)

end Token

end Script

end Interleaving
