import Interleaving.Json.Form
import Interleaving.Proofs.Environment
import Interleaving.Proofs.Json.Reading

/-!
# Forms That Read Back

Everything that has a JSON form is read back from its text as it was. For this two things
have to come together. The value it is written as must be readable, so that reading the text
gives that value; and it must be made of that value again. `Recovers` asks for both, and it
is shown for one type after the other, for a record from its fields.

The second part has two conditions. What is absent is written as `null`, so something that is
there must not be written so as well. And limits and numbers of states are below a bound,
beyond which they are written but refused.

A record is written with all its fields, each once, so each of them is found under its name.
An environment is written in name order, and made again in that order from the first binding
to the last.

## Main definitions

* `JsonForm.Recovers`: Something is made again of the value it is written as.

## Theorems

* `Json.fields?_object`: A record with all its fields gives them back.
* `JsonForm.Recovers.decode?_encode`: What recovers is read back from its text.
* `JsonForm.Recovers.value_iff`: A value is made of one JSON value only.
* `decode?_encode_each`: Each type with a JSON form reads back.
-/

namespace Interleaving

/-- A name that stands once in an object has one member. -/
theorem Json.filter_name_eq {members : List (String × Json)} (h : (members.map Prod.fst).Nodup)
    {member : String × Json} (hmember : member ∈ members) :
    members.filter (fun other => other.1 = member.1) = [member] := by
  induction members with
  | nil => cases hmember
  | cons first rest ih =>
      rw [List.map_cons, List.nodup_cons] at h
      rcases List.mem_cons.mp hmember with rfl | hrest
      · have hnone : rest.filter (fun other => other.1 = member.1) = [] := by
          rw [List.filter_eq_nil_iff]
          intro other hother heq
          exact h.1 (List.mem_map.mpr ⟨other, hother, decide_eq_true_iff.mp heq⟩)
        simp [hnone]
      · have hne : ¬ first.1 = member.1 := by
          intro heq
          exact h.1 (List.mem_map.mpr ⟨member, hrest, heq.symm⟩)
        simp [hne, ih h.2 hrest]

/-- An object with exactly the fields of a record gives all of them. -/
theorem Json.fields?_object (members : List (String × Json)) (h : (members.map Prod.fst).Nodup) :
    (Json.object members).fields? (members.map Prod.fst) =
      some (members.map fun member => some member.2) := by
  -- Each name is looked up among all members, so the induction is on a part of them.
  have hpart : ∀ part : List (String × Json), (∀ member ∈ part, member ∈ members) →
      (Json.object members).fields? (part.map Prod.fst) =
        some (part.map fun member => some member.2) := by
    intro part hin
    induction part with
    | nil => rfl
    | cons member part ih =>
        have hrest := ih fun other hother => hin other (List.mem_cons_of_mem member hother)
        rw [Json.fields?] at hrest ⊢
        rw [List.map_cons, List.mapM_cons, Json.filter_name_eq h (hin member List.mem_cons_self),
          hrest]
        rfl
  exact hpart members fun _ => id

namespace JsonForm

variable {α L : Type} [JsonForm α] [JsonForm L]

/-- Something is written as a value that can be read, and made of it again. -/
structure Recovers (a : α) : Prop where
  readable : (toJson a).Readable
  ofJson?_toJson : ofJson? (toJson a) = some a

namespace Recovers

theorem decode?_encode {a : α} (h : Recovers a) : decode? (encode a) = some a := by
  rw [decode?, encode, h.readable.parse?_render]
  exact h.ofJson?_toJson

theorem string (s : String) : Recovers s :=
  ⟨.str s, rfl⟩

theorem nat {n : Nat} (hn : n < natBound) : Recovers n where
  readable := .int n
  ofJson?_toJson := by
    have hrange : 0 ≤ (n : Int) ∧ (n : Int) < natBound := by omega
    exact (if_pos hrange).trans (congrArg some (Int.toNat_natCast n))

theorem list {l : List α} (h : ∀ a ∈ l, Recovers a) : Recovers l where
  readable := by
    refine .array ?_
    intro item hitem
    rcases List.mem_map.mp hitem with ⟨a, ha, rfl⟩
    exact (h a ha).readable
  ofJson?_toJson := mapM_map_eq_some fun a ha => (h a ha).ofJson?_toJson

/-- What is absent is written as `null`, and nothing else is. -/
theorem option {a? : Option α} (h : ∀ a ∈ a?, Recovers a ∧ toJson a ≠ .null) : Recovers a? := by
  cases a? with
  | none => exact ⟨.null, rfl⟩
  | some a =>
      rcases h a rfl with ⟨hrec, hnull⟩
      have hsome : ∀ json : Json, json ≠ .null →
          (ofJson? json : Option (Option α)) = some <$> ofJson? json := by
        intro json hjson
        cases json with
        | null => exact absurd rfl hjson
        | _ => rfl
      refine ⟨hrec.readable, (hsome (toJson a) hnull).trans ?_⟩
      rw [hrec.ofJson?_toJson]
      rfl

theorem value (v : Value) : Recovers v where
  readable := by
    cases v with
    | bool b => exact .bool b
    | int n => exact .int n.toInt
    | str s => exact .str s
  ofJson?_toJson := by
    cases v with
    | bool b => rfl
    | int n =>
        show (checked n.toInt).map Value.int = _
        rw [checked_eq_some_iff.mpr rfl, Option.map_some]
    | str s => rfl

/-- A value is made of the JSON value that it is written as and of no other. -/
theorem value_iff {json : Json} {v : Value} : ofJson? json = some v ↔ json = toJson v := by
  constructor
  · intro h
    cases json with
    | bool b =>
        cases h
        rfl
    | int n =>
        -- An integer out of range is refused, so the one that was made has not changed.
        rcases Option.map_eq_some_iff.mp h with ⟨k, hk, rfl⟩
        exact congrArg Json.int (checked_eq_some_iff.mp hk).symm
    | str s =>
        cases h
        rfl
    | null => cases h
    | unreadable => cases h
    | array items => cases h
    | object members => cases h
  · intro h
    rw [h]
    exact (value v).ofJson?_toJson

theorem environment (env : Environment) : Recovers env where
  readable := by
    refine .object ?_
    intro member hmember
    rcases List.mem_map.mp hmember with ⟨binding, -, rfl⟩
    exact (value binding.2).readable
  ofJson?_toJson := by
    unfold instJsonFormEnvironment
    dsimp only
    rw [mapM_map_eq_some]
    · exact congrArg some env.ofList_bindings
    · intro binding _
      simp only [(value binding.2).ofJson?_toJson]
      rfl

theorem programState {s : ProgramState L} (h : Recovers s.location) : Recovers s where
  readable := by
    refine .object ?_
    simp [h.readable, (environment s.env).readable]
  ofJson?_toJson := by
    have hfields : (toJson s).fields? ["location", "env"] =
        some [some (toJson s.location), some (toJson s.env)] :=
      Json.fields?_object [("location", _), ("env", _)]
        (show ["location", "env"].Nodup by decide)
    unfold instJsonFormProgramState at hfields ⊢
    dsimp only at hfields ⊢
    rw [hfields]
    simp [h.ofJson?_toJson, (environment s.env).ofJson?_toJson]

theorem systemState {s : SystemState L} (h : ∀ l ∈ s.locations, Recovers l) : Recovers s where
  readable := by
    refine .object ?_
    simp [(list h).readable, (environment s.env).readable]
  ofJson?_toJson := by
    have hfields : (toJson s).fields? ["locations", "env"] =
        some [some (toJson s.locations), some (toJson s.env)] :=
      Json.fields?_object [("locations", _), ("env", _)]
        (show ["locations", "env"].Nodup by decide)
    unfold instJsonFormSystemState at hfields ⊢
    dsimp only at hfields ⊢
    rw [hfields]
    simp [(list h).ofJson?_toJson, (environment s.env).ofJson?_toJson]

theorem edge {e : Edge L} (hsource : Recovers e.source) (htarget : Recovers e.target) :
    Recovers e where
  readable := by
    refine .object ?_
    simp [hsource.readable, htarget.readable, (string e.condition).readable,
      (string e.action).readable]
  ofJson?_toJson := by
    have hfields : (toJson e).fields? ["from", "condition", "action", "to"] =
        some [some (toJson e.source), some (toJson e.condition), some (toJson e.action),
          some (toJson e.target)] :=
      Json.fields?_object [("from", _), ("condition", _), ("action", _), ("to", _)]
        (show ["from", "condition", "action", "to"].Nodup by decide)
    unfold instJsonFormEdge at hfields ⊢
    dsimp only at hfields ⊢
    rw [hfields]
    simp [hsource.ofJson?_toJson, htarget.ofJson?_toJson, (string e.condition).ofJson?_toJson,
      (string e.action).ofJson?_toJson]

theorem limit {limit : Option Nat} (h : ∀ n ∈ limit, n < natBound) : Recovers limit := by
  refine option ?_
  intro n hn
  refine ⟨nat (h n hn), ?_⟩
  intro heq
  cases heq

theorem limits {l : Limits} (hdepth : ∀ n ∈ l.maxDepth, n < natBound)
    (hstates : ∀ n ∈ l.maxStates, n < natBound) : Recovers l where
  readable := by
    refine .object ?_
    simp [(limit hdepth).readable, (limit hstates).readable]
  ofJson?_toJson := by
    have hfields : (toJson l).fields? ["max_depth", "max_states"] =
        some [some (toJson l.maxDepth), some (toJson l.maxStates)] :=
      Json.fields?_object [("max_depth", _), ("max_states", _)]
        (show ["max_depth", "max_states"].Nodup by decide)
    unfold instJsonFormLimits at hfields ⊢
    dsimp only at hfields ⊢
    rw [hfields]
    simp [optionalField?, (limit hdepth).ofJson?_toJson, (limit hstates).ofJson?_toJson]

theorem outcome (o : Outcome) : Recovers o where
  readable := .str o.name
  ofJson?_toJson := by
    cases o <;> rfl

end Recovers

end JsonForm

open JsonForm (encode decode?)

/-- What is written is read back as it was: values, environments, states of program graphs and
    of channel systems, edges, limits, outcomes and the numbers of states, whatever texts and
    numbers they are made of. In particular two values that are written alike are the same, and
    a text is read as a value only if it is that value as JSON, so a boolean, an integer and a
    text are never taken for each other. -/
theorem decode?_encode_each :
    (∀ v : Value, decode? (encode v) = some v) ∧
    (∀ env : Environment, decode? (encode env) = some env) ∧
    (∀ s : ProgramState String, decode? (encode s) = some s) ∧
    (∀ s : SystemState String, decode? (encode s) = some s) ∧
    (∀ e : Edge String, decode? (encode e) = some e) ∧
    (∀ l : Limits, (∀ n ∈ l.maxDepth, n < natBound) → (∀ n ∈ l.maxStates, n < natBound) →
      decode? (encode l) = some l) ∧
    (∀ o : Outcome, decode? (encode o) = some o) ∧
    (∀ n < natBound, decode? (encode n) = some n) ∧
    (∀ v w : Value, encode v = encode w → v = w) ∧
    ∀ (text : String) (v : Value), decode? text = some v ↔ Json.parse? text = some (toJson v) := by
  refine ⟨fun v => (JsonForm.Recovers.value v).decode?_encode,
    fun env => (JsonForm.Recovers.environment env).decode?_encode,
    fun s => (JsonForm.Recovers.programState (.string s.location)).decode?_encode,
    fun s => (JsonForm.Recovers.systemState fun l _ => .string l).decode?_encode,
    fun e => (JsonForm.Recovers.edge (.string e.source) (.string e.target)).decode?_encode,
    fun l hdepth hstates => (JsonForm.Recovers.limits hdepth hstates).decode?_encode,
    fun o => (JsonForm.Recovers.outcome o).decode?_encode,
    fun n hn => (JsonForm.Recovers.nat hn).decode?_encode, ?_, ?_⟩
  · intro v w h
    have hv := (JsonForm.Recovers.value v).decode?_encode
    rw [h, (JsonForm.Recovers.value w).decode?_encode, Option.some.injEq] at hv
    exact hv.symm
  · intro text v
    simp only [decode?, Option.bind_eq_bind, Option.bind_eq_some_iff,
      JsonForm.Recovers.value_iff, exists_eq_right]

/-- The widest numbers, the lowest integer, and texts of characters that have to be escaped. -/
theorem widest_forms_read_back :
    let widest : Limits := ⟨some 18446744073709551615, some 0⟩
    let env : Environment := .ofList [("x\"", .int Int64.minValue), ("\\n", .str "true\x00\n")]
    let state : ProgramState String := ⟨"\x1f\x7fé😀", env⟩
    (∀ n ∈ widest.maxDepth, n < natBound) ∧ (∀ n ∈ widest.maxStates, n < natBound) ∧
      decode? (encode widest) = some widest ∧
      decode? (encode 18446744073709551615) = some 18446744073709551615 ∧
      decode? (encode state) = some state ∧
      encode (Value.str "true") ≠ encode (Value.bool true) ∧
      encode (Value.str "1") ≠ encode (Value.int 1) := by
  intro widest env state
  have hdepth : ∀ n ∈ widest.maxDepth, n < natBound := by decide
  have hstates : ∀ n ∈ widest.maxStates, n < natBound := by decide
  rcases decode?_encode_each with
    ⟨-, -, hstate, -, -, hlimits, -, hnumber, hvalue, -⟩
  refine ⟨hdepth, hstates, hlimits widest hdepth hstates, hnumber _ (by decide), hstate state,
    ?_, ?_⟩
  · intro h
    cases hvalue _ _ h
  · intro h
    cases hvalue _ _ h

end Interleaving
