import Interleaving.Json.Reader
import Interleaving.Proofs.Computation
import Interleaving.Proofs.Text.Decimal

/-!
# Reading What Was Written

The compact text of a value, read again, gives the value back. Of a text that is read only
the beginning may belong to the value, so for each reader it is said what it does with a
written value in front of something else: it takes the value and leaves the rest as it is.

For most values any rest will do. A number is different: it has no end of its own, and a
digit, a point or an exponent that follows would be read as a part of it. A written value
stands at the end of the text or before a comma or a closing bracket, and this is what
`Closes` asks of the rest.

Arrays and objects are read by loops that differ in what an entry is and in the character
that closes; `Lists` says what they have in common. Their depth and the number of entries
are bounded by the length of the text. That is enough, because every entry has at least one
character of its own.

A value without a meaning is written like another one, so it is left out, by `Readable`.

## Main definitions

* `Json.Readable`: Nothing in the value is unreadable.
* `Json.Reader.Closes`: What may follow a written value.
* `Json.Reader.Lists`: A loop that reads entries with commas between them.

## Theorems

* `Json.Reader.codePoints_escapedChar`: However a character is written, it is read back.
* `Json.Reader.number_decimal`: So is an integer.
* `Json.Reader.Lists.intercalate`: So are the entries of an array or of an object.
* `Json.Readable.value_render`: So is every readable value, and the rest is left.
* `Json.Readable.parse?_render`: The text of a readable value gives the value back.
-/

namespace Interleaving

namespace Json

/-- Nothing in the value is unreadable. -/
inductive Readable : Json → Prop where
  | null : Readable .null
  | bool (b : Bool) : Readable (.bool b)
  | int (n : Int) : Readable (.int n)
  | str (s : String) : Readable (.str s)
  | array {items : List Json} (h : ∀ item ∈ items, Readable item) : Readable (.array items)
  | object {members : List (String × Json)} (h : ∀ member ∈ members, Readable member.2) :
      Readable (.object members)

section Writing

theorem toList_renderText (s : String) :
    (renderText s).toList = '"' :: s.toList.flatMap escapedChar ++ ['"'] :=
  String.toList_ofList

/-- The characters of a member. -/
def memberChars (member : String × Json) : List Char :=
  (renderText member.1).toList ++ ':' :: member.2.render.toList

theorem renderItems_eq_map (items : List Json) : renderItems items = items.map render := by
  induction items with
  | nil => rw [renderItems, List.map_nil]
  | cons item rest ih => rw [renderItems, ih, List.map_cons]

theorem toList_renderMembers (members : List (String × Json)) :
    (renderMembers members).map String.toList = members.map memberChars := by
  induction members with
  | nil => rw [renderMembers, List.map_nil, List.map_nil]
  | cons member rest ih =>
      rw [renderMembers, List.map_cons, ih, List.map_cons]
      simp [memberChars, String.toList_append]

theorem toList_render_array (items : List Json) : (render (.array items)).toList =
    '[' :: [','].intercalate (items.map fun item => item.render.toList) ++ [']'] := by
  simp [render, String.toList_append, renderItems_eq_map, Function.comp_def]

theorem toList_render_object (members : List (String × Json)) : (render (.object members)).toList =
    '\x7b' :: [','].intercalate (members.map memberChars) ++ ['\x7d'] := by
  simp [render, String.toList_append, toList_renderMembers]

end Writing

namespace Reader

theorem skipSpace_cons {c : Char} (hc : isSpace c = false) (cs : List Char) :
    skipSpace (c :: cs) = c :: cs := by
  rw [skipSpace, List.dropWhile_cons_of_neg (by rw [hc]; exact Bool.false_ne_true)]

section Texts

theorem hexValue?_hexDigit : ∀ n < 16, hexValue? (hexDigit n) = some n := by
  decide

theorem codePoints_simpleEscape {escape c : Char} (h : simpleEscape? escape = some c)
    (cs : List Char) : codePoints ('\\' :: escape :: cs) =
      (codePoints cs).map (Prod.map (c.toNat :: ·) id) := by
  have hescape : escape ≠ 'u' := by
    rintro rfl
    cases h
  rw [codePoints, h]
  · cases codePoints cs <;> rfl
  · intro _ _ _ _ _ hu
    exact absurd hu hescape

/-- Four hexadecimal digits stand for a character below the space. -/
theorem codePoints_controlEscape {n : Nat} (hn : n < 0x20) (cs : List Char) :
    codePoints ('\\' :: 'u' :: '0' :: '0' :: hexDigit (n / 16) :: hexDigit (n % 16) :: cs) =
      (codePoints cs).map (Prod.map (n :: ·) id) := by
  have hpoint : codePoint? '0' '0' (hexDigit (n / 16)) (hexDigit (n % 16)) = some n := by
    rw [codePoint?, hexValue?_hexDigit (n / 16) (by omega), hexValue?_hexDigit (n % 16) (by omega)]
    show some _ = some n
    congr 1
    omega
  rw [codePoints, hpoint]
  cases codePoints cs <;> rfl

theorem codePoints_cons {c : Char} (hc : ¬ c.toNat < 0x20) (hquote : c ≠ '"') (hback : c ≠ '\\')
    (cs : List Char) :
    codePoints (c :: cs) = (codePoints cs).map (Prod.map (c.toNat :: ·) id) := by
  rw [codePoints]
  · simp only [hc, decide_false, Bool.false_or, beq_iff_eq, hback, if_false]
    cases codePoints cs <;> rfl
  · exact hquote
  · intro _ _ _ _ _ h
    exact absurd h hback
  · intro _ _ h
    exact absurd h hback

/-- However a character is written, it is read back, and nothing of what follows is lost. -/
theorem codePoints_escapedChar (c : Char) (cs : List Char) :
    codePoints (escapedChar c ++ cs) = (codePoints cs).map (Prod.map (c.toNat :: ·) id) := by
  unfold escapedChar
  split
  -- The last case is that of the characters without an escape of their own.
  case h_8 hquote hback _ _ _ _ _ =>
    split
    · next hc => exact codePoints_controlEscape hc cs
    · next hc => exact codePoints_cons hc hquote hback cs
  all_goals exact codePoints_simpleEscape rfl cs

theorem codePoints_flatMap_escapedChar (cs rest : List Char) :
    codePoints (cs.flatMap escapedChar ++ '"' :: rest) = some (cs.map Char.toNat, rest) := by
  induction cs with
  | nil => rw [List.flatMap_nil, List.nil_append, codePoints, List.map_nil]
  | cons c cs ih =>
      rw [List.flatMap_cons, List.append_assoc, codePoints_escapedChar, ih]
      rfl

/-- A character is never half of a surrogate pair. -/
theorem not_surrogate (c : Char) :
    isHighSurrogate c.toNat = false ∧ isLowSurrogate c.toNat = false := by
  have hvalid : c.toNat < 0xD800 ∨ 0xDFFF < c.toNat ∧ c.toNat < 0x110000 := c.valid
  constructor
  · rw [isHighSurrogate, Bool.and_eq_false_iff, decide_eq_false_iff_not, decide_eq_false_iff_not]
    omega
  · rw [isLowSurrogate, Bool.and_eq_false_iff, decide_eq_false_iff_not, decide_eq_false_iff_not]
    omega

theorem joinSurrogates_map_toNat (cs : List Char) :
    joinSurrogates (cs.map Char.toNat) = some cs := by
  induction cs with
  | nil => rfl
  | cons c cs ih =>
      rcases not_surrogate c with ⟨hhigh, hlow⟩
      cases cs with
      | nil => simp [joinSurrogates, hhigh, hlow]
      | cons next rest =>
          rw [List.map_cons] at ih
          rw [List.map_cons, List.map_cons, joinSurrogates, ih, hhigh, hlow]
          simp

theorem text_escaped (s : String) (rest : List Char) :
    text (s.toList.flatMap escapedChar ++ '"' :: rest) = some (some s, rest) := by
  rw [text, codePoints_flatMap_escapedChar]
  simp [joinSurrogates_map_toNat]

end Texts

/-- What may follow a written value: nothing, a comma or a closing bracket. -/
def Closes (rest : List Char) : Prop :=
  ∀ c ∈ rest.head?, c = ',' ∨ c = ']' ∨ c = '\x7d'

theorem closes_nil : Closes [] := by
  intro c hc
  cases hc

theorem closes_cons {c : Char} {cs : List Char} :
    Closes (c :: cs) ↔ c = ',' ∨ c = ']' ∨ c = '\x7d' := by
  simp [Closes]

section Numbers

variable {rest : List Char}

/-- What may follow a number does not go on with it. -/
theorem Closes.not_isDigit (h : Closes rest) {c : Char} (hc : c ∈ rest.head?) :
    c.isDigit = false ∧ c ≠ '.' ∧ c ≠ 'e' ∧ c ≠ 'E' := by
  rcases h c hc with rfl | rfl | rfl <;> decide

theorem fraction_of_closes (h : Closes rest) : fraction rest = some (false, rest) := by
  cases rest with
  | nil => rfl
  | cons c cs =>
      have hc := (h.not_isDigit (c := c) rfl).2.1
      rw [fraction]
      intro _ heq
      exact hc (List.cons.inj heq).1

theorem exponent_of_closes (h : Closes rest) : exponent rest = some (false, rest) := by
  cases rest with
  | nil => rfl
  | cons c cs =>
      rcases (h.not_isDigit (c := c) rfl).2.2 with ⟨hlower, hupper⟩
      rw [exponent]
      · intro _ heq
        exact hlower (List.cons.inj heq).1
      · intro _ heq
        exact hupper (List.cons.inj heq).1

/-- Digits are taken as far as they go. -/
theorem digits_append {ds : List Char} (hne : ds ≠ []) (hds : ∀ d ∈ ds, d.isDigit = true)
    (h : Closes rest) : digits (ds ++ rest) = some (ds, rest) := by
  have htake : rest.takeWhile Char.isDigit = [] := by
    cases rest with
    | nil => rfl
    | cons c cs => simp [(h.not_isDigit (c := c) rfl).1]
  have hdrop : rest.dropWhile Char.isDigit = rest := by
    cases rest with
    | nil => rfl
    | cons c cs => simp [(h.not_isDigit (c := c) rfl).1]
  rw [digits, List.takeWhile_append_of_pos hds, List.dropWhile_append_of_pos hds, htake, hdrop,
    List.append_nil]
  cases ds with
  | nil => exact absurd rfl hne
  | cons d ds => rfl

theorem integerDigits_repr (k : Nat) (h : Closes rest) :
    integerDigits ((Nat.repr k).toList ++ rest) = some ((Nat.repr k).toList, rest) := by
  by_cases hk : k = 0
  · rw [hk]
    rfl
  · have hne := Text.toList_repr_ne_nil k
    -- A zero would be a number by itself, but these digits do not begin with one.
    rw [integerDigits]
    · exact digits_append hne (fun d => Text.isDigit_of_mem_repr) h
    · intro cs heq
      have hfirst := congrArg List.head? heq
      rw [List.head?_append_of_ne_nil _ hne] at hfirst
      exact Text.head?_repr_ne_zero hk hfirst

theorem magnitude_repr (k : Nat) (h : Closes rest) :
    magnitude ((Nat.repr k).toList ++ rest) = some ((k, true), rest) := by
  simp only [magnitude, integerDigits_repr k h, fraction_of_closes h, exponent_of_closes h,
    Text.valueOfDigits_repr, bind, Option.bind]
  rfl

/-- An integer is read back, and what may follow it is left. -/
theorem number_decimal (n : Int) (h : Closes rest) :
    number ((Text.decimal n).toList ++ rest) = some (.int n, rest) := by
  cases n with
  | ofNat k =>
      have hmagnitude := magnitude_repr k h
      show number ((Nat.repr k).toList ++ rest) = _
      rcases Text.exists_toList_repr_eq_cons k with ⟨d, ds, hcons, hd⟩
      rw [hcons, List.cons_append] at hmagnitude ⊢
      rw [number, hmagnitude]
      · rfl
      · -- The first character is a digit and no sign.
        intro cs heq
        rw [(List.cons.inj heq).1] at hd
        cases hd
  | negSucc k =>
      rw [Text.toList_decimal_negSucc, List.cons_append, number, magnitude_repr (k + 1) h]
      rfl

end Numbers

section Entries

variable {α β : Type}

/-- A loop that reads entries with commas between them, up to a closing character. -/
structure Lists (entry : Reader α) (close : Char) (loop : Nat → Reader (List α)) : Prop where
  comma : ∀ {bound cs first rest}, entry cs = some (first, ',' :: rest) →
    loop (bound + 1) cs = (loop bound rest).map (Prod.map (first :: ·) id)
  close : ∀ {bound cs last rest}, entry cs = some (last, close :: rest) →
    loop (bound + 1) cs = some ([last], rest)

theorem items_lists (nested : Reader Json) : Lists nested ']' (items nested) where
  comma := by
    intro bound cs first rest h
    rw [items, h]
    show (items nested bound rest).bind _ = _
    cases items nested bound rest <;> rfl
  close := by
    intro bound cs last rest h
    rw [items, h]
    rfl

theorem members_lists (nested : Reader Json) : Lists (member nested) '\x7d' (members nested) where
  comma := by
    intro bound cs first rest h
    rw [members, h]
    show (members nested bound rest).bind _ = _
    cases members nested bound rest <;> rfl
  close := by
    intro bound cs last rest h
    rw [members, h]
    rfl

/-- If a reader reads back each of some entries, a loop reads back all of them, with commas
    between them. The induction is on the entries that are left. -/
theorem Lists.intercalate {entry : Reader α} {close : Char} {loop : Nat → Reader (List α)}
    (h : Lists entry close loop) (hclose : close = ']' ∨ close = '\x7d') {chars : β → List Char}
    {meaning : β → α} {bs : List β} (hne : bs ≠ [])
    (hentry : ∀ b ∈ bs, ∀ rest, Closes rest → entry (chars b ++ rest) = some (meaning b, rest))
    {bound : Nat} (hbound : bs.length ≤ bound) (rest : List Char) :
    loop bound ([','].intercalate (bs.map chars) ++ close :: rest) =
      some (bs.map meaning, rest) := by
  induction bs generalizing bound with
  | nil => exact absurd rfl hne
  | cons b bs ih =>
      cases bound with
      | zero => cases hbound
      | succ bound =>
          have hfirst := hentry b List.mem_cons_self
          cases bs with
          | nil =>
              have hend : Closes (close :: rest) := closes_cons.mpr (Or.inr hclose)
              rw [List.map_singleton, List.intercalate_singleton, h.close (hfirst _ hend)]
              rfl
          | cons b' bs =>
              have hmore := ih (List.cons_ne_nil b' bs)
                (fun b hb => hentry b (List.mem_cons_of_mem _ hb)) (Nat.le_of_succ_le_succ hbound)
              have hcomma : ∀ cs, Closes (',' :: cs) := fun cs => closes_cons.mpr (Or.inl rfl)
              rw [List.map_cons, List.map_cons, List.intercalate_cons_cons, List.append_assoc,
                List.append_assoc, List.singleton_append, h.comma (hfirst _ (hcomma _)),
                ← List.map_cons, hmore]
              rfl

end Entries

theorem member_memberChars {nested : Reader Json} {member : String × Json} {rest : List Char}
    (h : nested (member.2.render.toList ++ rest) = some (member.2, rest)) :
    Reader.member nested (memberChars member ++ rest) = some ((some member.1, member.2), rest) := by
  rw [Reader.member, memberChars, toList_renderText]
  simp only [List.cons_append, List.append_assoc, List.nil_append]
  rw [skipSpace_cons rfl]
  simp only [text_escaped, bind, Option.bind]
  rw [skipSpace_cons rfl]
  simp only [h]
  rfl

theorem objectOf_map_some (members : List (String × Json)) :
    objectOf (members.map fun member => (some member.1, member.2)) = .object members := by
  rw [objectOf, mapM_map_eq_some]
  intro member _
  rfl

/-- The characters an integer begins with. -/
def beginsNumber (c : Char) : Bool :=
  c.isDigit || c == '-'

theorem ne_of_beginsNumber {c x : Char} (hc : beginsNumber c = true)
    (hx : beginsNumber x = false) : c ≠ x := by
  rintro rfl
  rw [hx] at hc
  cases hc

theorem isSpace_of_beginsNumber {c : Char} (hc : beginsNumber c = true) : isSpace c = false := by
  simp [isSpace, ne_of_beginsNumber hc (x := ' ') rfl, ne_of_beginsNumber hc (x := '\t') rfl,
    ne_of_beginsNumber hc (x := '\r') rfl, ne_of_beginsNumber hc (x := '\n') rfl]

theorem exists_decimal_eq_cons (n : Int) :
    ∃ c cs, (Text.decimal n).toList = c :: cs ∧ beginsNumber c = true := by
  cases n with
  | ofNat k =>
      rcases Text.exists_toList_repr_eq_cons k with ⟨d, ds, hcons, hd⟩
      exact ⟨d, ds, hcons, by rw [beginsNumber, hd, Bool.true_or]⟩
  | negSucc k => exact ⟨'-', _, Text.toList_decimal_negSucc k, rfl⟩

/-- What begins like a number is read as one. -/
theorem value_eq_number {c : Char} (hc : beginsNumber c = true) (depth : Nat) (cs : List Char) :
    value (depth + 1) (c :: cs) = number (c :: cs) := by
  rw [value, skipSpace_cons (isSpace_of_beginsNumber hc)]
  split
  case h_7 => rfl
  -- None of the other ways a value can begin fits.
  all_goals
    next heq => exact absurd (List.cons.inj heq).1 (ne_of_beginsNumber hc rfl)

/-- A written value begins with a character that does not close an array. -/
theorem exists_render_eq_cons (j : Json) :
    ∃ c cs, j.render.toList = c :: cs ∧ isSpace c = false ∧ c ≠ ']' := by
  cases j with
  | null => exact ⟨'n', _, rfl, rfl, by decide⟩
  | bool b =>
      cases b with
      | true => exact ⟨'t', _, rfl, rfl, by decide⟩
      | false => exact ⟨'f', _, rfl, rfl, by decide⟩
  | int n =>
      rcases exists_decimal_eq_cons n with ⟨c, cs, hcons, hc⟩
      have hrender : (Json.int n).render = Text.decimal n := by rw [render]
      exact ⟨c, cs, hrender ▸ hcons, isSpace_of_beginsNumber hc, ne_of_beginsNumber hc rfl⟩
  | str s =>
      have hrender : (Json.str s).render = renderText s := by rw [render]
      exact ⟨'"', _, hrender ▸ toList_renderText s, rfl, by decide⟩
  | unreadable => exact ⟨'n', _, rfl, rfl, by decide⟩
  | array items => exact ⟨'[', _, toList_render_array items, rfl, by decide⟩
  | object members => exact ⟨'\x7b', _, toList_render_object members, rfl, by decide⟩

theorem render_ne_nil (j : Json) : j.render.toList ≠ [] := by
  rcases exists_render_eq_cons j with ⟨c, cs, hcons, -⟩
  rw [hcons]
  exact List.cons_ne_nil c cs

theorem memberChars_ne_nil (member : String × Json) : memberChars member ≠ [] := by
  rw [memberChars, toList_renderText]
  exact List.cons_ne_nil _ _

/-- Each entry has characters of its own, so neither the number of entries nor the length of
    one of them exceeds the length of the whole. -/
theorem length_le_intercalate {β : Type} {chars : β → List Char} (hne : ∀ b, chars b ≠ [])
    (bs : List β) : bs.length ≤ ([','].intercalate (bs.map chars)).length ∧
      ∀ b ∈ bs, (chars b).length ≤ ([','].intercalate (bs.map chars)).length := by
  induction bs with
  | nil => simp
  | cons b bs ih =>
      have hpos := List.length_pos_of_ne_nil (hne b)
      cases bs with
      | nil =>
          rw [List.map_singleton, List.intercalate_singleton, List.length_singleton]
          refine ⟨hpos, ?_⟩
          intro other hother
          exact Nat.le_of_eq (congrArg (fun b => (chars b).length) (List.mem_singleton.mp hother))
      | cons next bs =>
          rw [List.map_cons] at ih
          rw [List.map_cons, List.map_cons, List.intercalate_cons_cons]
          simp only [List.length_append, List.length_cons, List.length_nil] at ih ⊢
          refine ⟨by omega, ?_⟩
          intro other hother
          rcases List.mem_cons.mp hother with rfl | hother
          · omega
          · have := ih.2 other hother
            omega

section Values

variable {depth : Nat} {rest : List Char}

theorem value_renderText (s : String) :
    value (depth + 1) ((renderText s).toList ++ rest) = some (.str s, rest) := by
  rw [toList_renderText, List.cons_append, List.cons_append, List.append_assoc,
    List.singleton_append, value, skipSpace_cons rfl]
  simp only [text_escaped, bind, Option.bind]
  rfl

theorem value_array {items : List Json} (hlength : items.length ≤ depth)
    (hitem : ∀ item ∈ items, ∀ rest, Closes rest →
      value depth (item.render.toList ++ rest) = some (item, rest)) :
    value (depth + 1) ((render (.array items)).toList ++ rest) = some (.array items, rest) := by
  rw [toList_render_array, List.cons_append, List.cons_append, List.append_assoc,
    List.singleton_append, value, skipSpace_cons rfl]
  cases items with
  | nil => rfl
  | cons item more =>
      have hloop := (items_lists (value depth)).intercalate (Or.inl rfl)
        (List.cons_ne_nil item more) hitem hlength rest
      rcases exists_render_eq_cons item with ⟨c, cs, hcons, hspace, hclose⟩
      rw [List.map_cons, hcons, List.intercalate_cons_cons_left, List.cons_append] at hloop ⊢
      simp only [skipSpace_cons hspace]
      -- The array would be empty if a bracket came here, but an item begins otherwise.
      split
      · next heq => exact absurd (List.cons.inj heq).1 hclose
      · rw [hloop, List.map_id']
        rfl

theorem value_object {members : List (String × Json)} (hlength : members.length ≤ depth)
    (hmember : ∀ member ∈ members, ∀ rest, Closes rest →
      value depth (member.2.render.toList ++ rest) = some (member.2, rest)) :
    value (depth + 1) ((render (.object members)).toList ++ rest) =
      some (.object members, rest) := by
  rw [toList_render_object, List.cons_append, List.cons_append, List.append_assoc,
    List.singleton_append, value, skipSpace_cons rfl]
  cases members with
  | nil => rfl
  | cons member more =>
      have hloop := (members_lists (value depth)).intercalate (Or.inr rfl)
        (List.cons_ne_nil member more)
        (fun member hin rest hrest => member_memberChars (hmember member hin rest hrest))
        hlength rest
      -- The first member begins with the quote of its name, so the object is not empty.
      rw [List.map_cons, memberChars, toList_renderText, List.cons_append, List.cons_append,
        List.intercalate_cons_cons_left, List.cons_append] at hloop ⊢
      simp only [skipSpace_cons (c := '"') rfl]
      rw [hloop]
      exact congrArg (fun json => some (json, rest)) (objectOf_map_some (member :: more))

end Values

end Reader

open Reader

/-- A readable value is read back, and what may follow it is left. -/
theorem Readable.value_render {j : Json} (h : j.Readable) {depth : Nat}
    (hdepth : j.render.toList.length ≤ depth) {rest : List Char} (hrest : Closes rest) :
    value (depth + 1) (j.render.toList ++ rest) = some (j, rest) := by
  induction h generalizing depth rest with
  | null => rfl
  | bool b => cases b <;> rfl
  | int n =>
      have hnumber := number_decimal n hrest
      rcases exists_decimal_eq_cons n with ⟨c, cs, hcons, hc⟩
      rw [hcons, List.cons_append] at hnumber
      rw [render, hcons, List.cons_append, value_eq_number hc, hnumber]
  | str s =>
      rw [render]
      exact value_renderText s
  | @array items _ ih =>
      rcases length_le_intercalate render_ne_nil items with ⟨hcount, hlength⟩
      rw [toList_render_array] at hdepth
      simp only [List.length_append, List.length_cons, List.length_nil] at hdepth
      cases depth with
      | zero => omega
      | succ depth =>
          -- An item is shorter than the array by the brackets, so one level less is enough.
          refine value_array (by omega) ?_
          intro item hitem rest hrest
          have := hlength item hitem
          exact ih item hitem (by omega) hrest
  | @object members _ ih =>
      rcases length_le_intercalate memberChars_ne_nil members with ⟨hcount, hlength⟩
      rw [toList_render_object] at hdepth
      simp only [List.length_append, List.length_cons, List.length_nil] at hdepth
      cases depth with
      | zero => omega
      | succ depth =>
          refine value_object (by omega) ?_
          intro member hmember rest hrest
          have := hlength member hmember
          rw [memberChars, List.length_append, List.length_cons] at this
          exact ih member hmember (by omega) hrest

/-- The text of a readable value, read again, gives the value. -/
theorem Readable.parse?_render {j : Json} (h : j.Readable) : parse? j.render = some j := by
  have hvalue := h.value_render (Nat.le_refl _) closes_nil
  rw [List.append_nil] at hvalue
  rw [parse?]
  simp only [hvalue]
  rfl

end Json

end Interleaving
