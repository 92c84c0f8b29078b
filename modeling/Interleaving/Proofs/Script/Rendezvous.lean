import Interleaving.Proofs.Script.Grammar
import Interleaving.Proofs.Script.Scanning
import Interleaving.Proofs.Computation
import Interleaving.Registry.Script
import Mathlib.Data.List.Basic

/-!
# Combined Texts

Two one-sided actions that are taken together have one text, the two texts with a
bar between them, and that text is read again from its first character. The sent
expression may end in anything an expression ends in, contain `||`, and be
surrounded by spaces. Still the combined text is read as the two actions and
nothing else.

The tokens of the combined text are those of the first action, a bar, and those of
the second. No token of an action is a bar, so the bar between them joins nothing
on its left; and an action begins with a word, so it joins nothing on its right. In
the tokens the bar stands once, and this is also why the text can be cut at only
one place.

## Main definitions

* `ChannelOp.Exchanges`: A send and a receive on the same channel.

## Theorems

* `tokenize_combine`, `exists_combine_of_tokenize`: The tokens of a combined text.
* `combine_inj_of_derivesOp`: A combined text has one first half and one second.
* `standard_combine_swap`: The two actions may change places.
* `parsePair?_combine_exchanges`: Combined texts are read as what they were made
  of, and every text that is read so was made in one way.
-/

namespace Interleaving

namespace Script

open Grammar Token

theorem toList_combine (a b : String) : (combine a b).toList = a.toList ++ '|' :: b.toList := by
  simp [combine, String.toList_append]

theorem tokenize_combine {a b : String} {ts us : List Token} {first second : ChannelOp}
    (ha : tokenize a = some ts) (hb : tokenize b = some us) (hts : DerivesOp ts first)
    (hus : DerivesOp us second) : tokenize (combine a b) = some (ts ++ .bar :: us) := by
  rcases hus.exists_ident with ⟨name, us, rfl⟩
  unfold tokenize at ha hb ⊢
  rw [toList_combine, scan_append_bar ha hts.bar_not_mem, scan_bar_of_ident hb, Option.map_some]

theorem exists_combine_of_tokenize {text : String} {ts us : List Token}
    (h : tokenize text = some (ts ++ .bar :: us)) :
    ∃ a b, text = combine a b ∧ tokenize a = some ts ∧ tokenize b = some us := by
  rcases scan_split bar_writtenAs h (Nat.zero_le _) with ⟨xs, ys, htext, -, hxs, hys⟩
  refine ⟨String.ofList xs, String.ofList ys, ?_, ?_, ?_⟩
  · rw [← String.toList_inj, toList_combine, String.toList_ofList, String.toList_ofList, htext]
  · rw [tokenize, String.toList_ofList, hxs]
  · rw [tokenize, String.toList_ofList, hys]

/-- A combined text has one first half and one second half. -/
theorem combine_inj_of_derivesOp {a b a' b' : String} {ts us : List Token}
    {first second : ChannelOp} (ha : tokenize a = some ts) (hb : tokenize b = some us)
    (hts : DerivesOp ts first) (hus : DerivesOp us second) {ts' us' : List Token}
    {first' second' : ChannelOp} (ha' : tokenize a' = some ts') (hb' : tokenize b' = some us')
    (hts' : DerivesOp ts' first') (hus' : DerivesOp us' second')
    (heq : combine a b = combine a' b') : a = a' ∧ b = b' := by
  -- The bar stands once among the tokens, so the tokens of the halves agree.
  have htokens : ts ++ .bar :: us = ts' ++ .bar :: us' := by
    have hleft := tokenize_combine ha hb hts hus
    rw [heq, tokenize_combine ha' hb' hts' hus'] at hleft
    exact (Option.some.inj hleft).symm
  rw [List.append_cons_inj_of_notMem hts.bar_not_mem hus.bar_not_mem] at htokens
  have hlists : a.toList ++ '|' :: b.toList = a'.toList ++ '|' :: b'.toList := by
    rw [← toList_combine, ← toList_combine, heq]
  rw [← htokens.1] at ha'
  have hfirst : a.toList = a'.toList := eq_of_append_bar_eq ha ha' hts.bar_not_mem hlists
  rw [hfirst, List.append_cancel_left_eq, List.cons.injEq] at hlists
  exact ⟨String.toList_inj.mp hfirst, String.toList_inj.mp hlists.2⟩

/-- One operation sends `value`, the other takes it into `target`, both on the same
    channel. -/
def ChannelOp.Exchanges (first second : ChannelOp) (value : Expr) (target : String) : Prop :=
  ∃ channel, (first = .send channel value ∧ second = .receive channel target) ∨
    (first = .receive channel target ∧ second = .send channel value)

theorem ChannelOp.Exchanges.symm {first second : ChannelOp} {value : Expr} {target : String}
    (h : first.Exchanges second value target) : second.Exchanges first value target := by
  rcases h with ⟨channel, h | h⟩
  · exact ⟨channel, Or.inr h.symm⟩
  · exact ⟨channel, Or.inl h.symm⟩

theorem ChannelOp.exchange?_eq_some_iff {first second : ChannelOp} {value : Expr}
    {target : String} :
    first.exchange? second = some (value, target) ↔ first.Exchanges second value target := by
  constructor
  · intro h
    unfold ChannelOp.exchange? at h
    split at h
    · next hchannel =>
      split at h
      · next channel value' channel' target' =>
        cases h
        cases hchannel
        exact ⟨channel, Or.inl ⟨rfl, rfl⟩⟩
      · next channel target' channel' value' =>
        cases h
        cases hchannel
        exact ⟨channel, Or.inr ⟨rfl, rfl⟩⟩
      · cases h
    · cases h
  · intro h
    rcases h with ⟨channel, ⟨rfl, rfl⟩ | ⟨rfl, rfl⟩⟩
    · exact if_pos rfl
    · exact if_pos rfl

theorem parsePair?_combine {a b : String} {first second : ChannelOp}
    (ha : ChannelOp.parse? a = some first) (hb : ChannelOp.parse? b = some second) :
    ChannelOp.parsePair? (combine a b) = some (first, second) := by
  rcases ChannelOp.parse?_eq_some_iff.mp ha with ⟨ts, hts, hfirst⟩
  rcases ChannelOp.parse?_eq_some_iff.mp hb with ⟨us, hus, hsecond⟩
  exact ChannelOp.parsePair?_eq_some_iff.mpr
    ⟨ts, us, tokenize_combine hts hus hfirst hsecond, hfirst, hsecond⟩

theorem exchange?_combine {a b : String} {first second : ChannelOp}
    (ha : ChannelOp.parse? a = some first) (hb : ChannelOp.parse? b = some second) :
    exchange? (combine a b) = first.exchange? second := by
  rw [exchange?, parsePair?_combine ha hb]
  rfl

/-- A text that is read as two operations is a combined text, of one pair of texts. -/
theorem existsUnique_combine {text : String} {first second : ChannelOp}
    (h : ChannelOp.parsePair? text = some (first, second)) :
    ∃! halves : String × String, text = combine halves.1 halves.2 ∧
      ChannelOp.parse? halves.1 = some first ∧ ChannelOp.parse? halves.2 = some second := by
  rcases ChannelOp.parsePair?_eq_some_iff.mp h with ⟨ts, us, htext, hfirst, hsecond⟩
  rcases exists_combine_of_tokenize htext with ⟨a, b, rfl, ha, hb⟩
  refine ⟨(a, b), ⟨rfl, ?_, ?_⟩, ?_⟩
  · exact ChannelOp.parse?_eq_some_iff.mpr ⟨ts, ha, hfirst⟩
  · exact ChannelOp.parse?_eq_some_iff.mpr ⟨us, hb, hsecond⟩
  · intro halves hhalves
    rcases halves with ⟨a', b'⟩
    rcases hhalves with ⟨heq, ha', hb'⟩
    rcases ChannelOp.parse?_eq_some_iff.mp ha' with ⟨ts', hts', hfirst'⟩
    rcases ChannelOp.parse?_eq_some_iff.mp hb' with ⟨us', hus', hsecond'⟩
    have hab := combine_inj_of_derivesOp ha hb hfirst hsecond hts' hus' hfirst' hsecond' heq
    rw [Prod.mk.injEq]
    exact ⟨hab.1.symm, hab.2.symm⟩

theorem standard_isMatching (combined : String) :
    (Registry.standard : Registry Id).isMatching combined = (exchange? combined).isSome := by
  simp [Registry.isMatching, Registry.standard, rendezvousHandler]

theorem run_standard_rendezvousEffect {combined : String} {value : Expr} {target : String}
    (h : exchange? combined = some (value, target)) (env : Environment) :
    ((Registry.standard : Registry Id).rendezvousEffect env combined).run =
      (value.eval env).map fun v => some (env.insert target v) := by
  have hfind : (Registry.standard : Registry Id).rendezvous.find? (·.isMatching combined) =
      some rendezvousHandler := by
    simp [Registry.standard, rendezvousHandler, h]
  unfold Registry.rendezvousEffect
  rw [hfind]
  simp only [rendezvousHandler, h]
  cases value.eval env <;> rfl

/-- A rendezvous binds the target to the value that was sent. -/
theorem run_standard_rendezvousEffect_eq_ok_iff {combined : String} {env out : Environment} :
    ((Registry.standard : Registry Id).rendezvousEffect env combined).run = .ok (some out) ↔
      ∃ value target v, exchange? combined = some (value, target) ∧ value.eval env = .ok v ∧
        env.insert target v = out := by
  cases hexchange : exchange? combined with
  | none =>
      have hfind : (Registry.standard : Registry Id).rendezvous.find? (·.isMatching combined) =
          none := by
        simp [Registry.standard, rendezvousHandler, hexchange]
      unfold Registry.rendezvousEffect
      rw [hfind]
      constructor
      · intro h
        cases h
      · rintro ⟨value, target, v, heq, -, -⟩
        cases heq
  | some exchanged =>
      rcases exchanged with ⟨value, target⟩
      rw [run_standard_rendezvousEffect hexchange]
      cases hv : value.eval env with
      | error e => simp [Except.map, hv]
      | ok v => simp [Except.map, hv]

theorem standard_isOneSided (action : String) :
    (Registry.standard : Registry Id).isOneSided action = (ChannelOp.parse? action).isSome := by
  simp [Registry.isOneSided, Registry.standard, rendezvousHandler]

/-- Which of two one-sided actions comes first in a combined text makes no difference
    to what the text does. -/
theorem standard_combine_swap {a b : String}
    (ha : (Registry.standard : Registry Id).isOneSided a = true)
    (hb : (Registry.standard : Registry Id).isOneSided b = true)
    (hab : (Registry.standard : Registry Id).isMatching (combine a b) = true) :
    (Registry.standard : Registry Id).isMatching (combine b a) = true ∧
      ∀ env, ((Registry.standard : Registry Id).rendezvousEffect env (combine b a)).run =
        ((Registry.standard : Registry Id).rendezvousEffect env (combine a b)).run := by
  rw [standard_isOneSided, Option.isSome_iff_exists] at ha hb
  rcases ha with ⟨first, ha⟩
  rcases hb with ⟨second, hb⟩
  rw [standard_isMatching, Option.isSome_iff_exists] at hab
  rcases hab with ⟨⟨value, target⟩, hab⟩
  have hexchanges : first.Exchanges second value target := by
    rw [← ChannelOp.exchange?_eq_some_iff, ← exchange?_combine ha hb]
    exact hab
  have hba : exchange? (combine b a) = some (value, target) := by
    rw [exchange?_combine hb ha, ChannelOp.exchange?_eq_some_iff]
    exact hexchanges.symm
  refine ⟨?_, ?_⟩
  · rw [standard_isMatching, hba]
    rfl
  · intro env
    rw [run_standard_rendezvousEffect hba, run_standard_rendezvousEffect hab]

/-- The text of two one-sided actions taken together is read as these two. It
    matches exactly if one of them sends and the other receives on the same channel,
    and then the variable of the receiver gets the value of the sent expression,
    whichever comes first; the only failure is that of the expression. Every text that
    is read as two actions is a combined text in exactly one way. -/
theorem parsePair?_combine_exchanges :
    (∀ a b first second, ChannelOp.parse? a = some first → ChannelOp.parse? b = some second →
      ChannelOp.parsePair? (combine a b) = some (first, second) ∧
      ((Registry.standard : Registry Id).isMatching (combine a b) = true ↔
        ∃ value target, first.Exchanges second value target) ∧
      ∀ value target, first.Exchanges second value target → ∀ env,
        ((Registry.standard : Registry Id).rendezvousEffect env (combine a b)).run =
            (value.eval env).map (fun v => some (env.insert target v)) ∧
          ((Registry.standard : Registry Id).rendezvousEffect env (combine b a)).run =
            (value.eval env).map (fun v => some (env.insert target v))) ∧
    ∀ text first second, ChannelOp.parsePair? text = some (first, second) →
      ∃! halves : String × String, text = combine halves.1 halves.2 ∧
        ChannelOp.parse? halves.1 = some first ∧ ChannelOp.parse? halves.2 = some second := by
  refine ⟨?_, fun text first second h => existsUnique_combine h⟩
  intro a b first second ha hb
  refine ⟨parsePair?_combine ha hb, ?_, ?_⟩
  · rw [standard_isMatching, exchange?_combine ha hb, Option.isSome_iff_exists, Prod.exists]
    simp only [ChannelOp.exchange?_eq_some_iff]
  · intro value target hexchanges env
    constructor
    · refine run_standard_rendezvousEffect ?_ env
      rw [exchange?_combine ha hb, ChannelOp.exchange?_eq_some_iff]
      exact hexchanges
    · refine run_standard_rendezvousEffect ?_ env
      rw [exchange?_combine hb ha, ChannelOp.exchange?_eq_some_iff]
      exact hexchanges.symm

/-- A sent expression with bars of its own, and spaces around the bar between the
    actions. -/
theorem disjunction_parsePair?_combine_exchanges :
    let sent : Expr := .binary .or (.var "x") (.var "y")
    let text := combine "c ! x||y " " c?z"
    ChannelOp.parse? "c ! x||y " = some (.send "c" sent) ∧
      ChannelOp.parse? " c?z" = some (.receive "c" "z") ∧
      ChannelOp.parsePair? text = some (.send "c" sent, .receive "c" "z") ∧
      (Registry.standard : Registry Id).isMatching text = true ∧
      ∃! halves : String × String, text = combine halves.1 halves.2 ∧
        ChannelOp.parse? halves.1 = some (.send "c" sent) ∧
        ChannelOp.parse? halves.2 = some (.receive "c" "z") := by
  intro sent text
  have hsend : ChannelOp.parse? "c ! x||y " = some (.send "c" sent) := by decide +kernel
  have hreceive : ChannelOp.parse? " c?z" = some (.receive "c" "z") := by decide +kernel
  have hcombined := parsePair?_combine_exchanges.1 _ _ _ _ hsend hreceive
  exact ⟨hsend, hreceive, hcombined.1,
    hcombined.2.1.mpr ⟨sent, "z", "c", Or.inl ⟨rfl, rfl⟩⟩,
    parsePair?_combine_exchanges.2 _ _ _ hcombined.1⟩

end Script

end Interleaving
