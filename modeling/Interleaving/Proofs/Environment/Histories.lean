import Interleaving.Dynamics.ChannelSystem
import Interleaving.Dynamics.ProgramGraph
import Interleaving.Proofs.Environment
import Interleaving.Proofs.Exploration.Soundness
import Interleaving.Proofs.TransitionSystem
import Interleaving.Registry.Script
import Mathlib.Data.List.Nodup

/-!
# How Environments Are Made

An environment begins with nothing or as a collection of pairs, and then one name after the
other is bound. All bindings ever made, in the order in which they were made, are its history;
names come up in it again and again. The environment keeps of all this the last value of each
name, by name.

Whatever was done to make it, an environment is the collection of its history. So there is one
induction over the ways to make an environment, and from there on the question is what a
collection keeps. Looking a name up there goes through the history from its end.

Two histories with the same last bindings therefore make one environment, and two states that
agree in their locations and in the value of every name are one state. A transition system
has one number for it, and a search that comes to it for a second time does not add it.

## Main definitions

* `Text.codePoints`: The numbers of the characters of a text.
* `Environment.Made`: An environment was made by a history of bindings.
* `Environment.LastBound`: The last value of a name in a history.
* `ProgramState.Alike`, `SystemState.Alike`: The same locations and the same values.
* `KnownBy`: States are told apart by what a relation compares, and by nothing else.

## Theorems

* `Environment.Made.eq_ofList`: An environment is the collection of its history.
* `Environment.Made.get?_eq_some_iff`: Values are those bound last.
* `Environment.Made.count_names`: Each bound name is listed once.
* `Environment.Made.eq_iff`: Which histories make the same environment.
* `Environment.insert_insert_of_ne`, `Environment.insert_insert_self`: Two bindings.
* `knownBy_of_eq_iff`: What follows for states.
* `Environment.made_by_last_bindings`: All of this for every history and every state.
-/

namespace Interleaving

/-- The numbers of the characters of a text. -/
def Text.codePoints (text : String) : List Nat :=
  text.toList.map Char.toNat

/-- Texts are compared by code points, from left to right. -/
theorem Text.lex_codePoints_of_lt {a b : String} (h : a < b) :
    List.Lex (· < ·) (codePoints a) (codePoints b) := by
  refine List.lex_lt.mpr (List.map_lt ?_ (String.lt_iff.mp h))
  intro c d hlt
  exact UInt32.lt_iff_toNat_lt.mp (Char.lt_def.mp hlt)

namespace Environment

/-- An environment was made by a history, which has all bindings in the order in which they
    were made. -/
inductive Made : Environment → List (String × Value) → Prop where
  /-- Nothing is bound at first. -/
  | empty : Made .empty []
  /-- Pairs are collected. -/
  | collected (pairs : List (String × Value)) : Made (ofList pairs) pairs
  /-- A name is bound, in a copy or in place. -/
  | bound {env : Environment} {history : List (String × Value)} (h : Made env history)
      (name : String) (value : Value) : Made (env.insert name value) (history ++ [(name, value)])

/-- The last binding of a name in a history is to this value. -/
def LastBound (history : List (String × Value)) (name : String) (value : Value) : Prop :=
  ∃ before after, history = before ++ (name, value) :: after ∧ ∀ b ∈ after, b.1 ≠ name

section Histories

variable {history : List (String × Value)} {name : String} {value : Value}

/-- A collection is looked through from its end. -/
theorem get?_ofList (history : List (String × Value)) (name : String) :
    (ofList history).get? name = history.reverse.lookup name := by
  induction history using List.reverseRecOn with
  | nil => rfl
  | append_singleton history binding ih =>
      rcases binding with ⟨last, value⟩
      rw [ofList_append_singleton, get?_insert, ih, List.reverse_append, List.reverse_singleton,
        List.singleton_append]
      by_cases hname : name = last
      · rw [if_pos hname, hname, List.lookup_cons_self]
      · have hbeq : (name == last) = false := beq_false_of_ne hname
        simp only [if_neg hname, List.lookup_cons, hbeq]

theorem lookup_reverse_eq_some_iff :
    history.reverse.lookup name = some value ↔ LastBound history name value := by
  rw [List.lookup_eq_some_iff]
  constructor
  · rintro ⟨after, before, hsplit, hafter⟩
    refine ⟨before.reverse, after.reverse, ?_, ?_⟩
    · rw [← List.reverse_reverse history, hsplit]
      simp
    · intro b hb
      exact Ne.symm (bne_iff_ne.mp (hafter b (List.mem_reverse.mp hb)))
  · rintro ⟨before, after, rfl, hafter⟩
    refine ⟨after.reverse, before.reverse, by simp, ?_⟩
    intro b hb
    exact bne_iff_ne.mpr (Ne.symm (hafter b (List.mem_reverse.mp hb)))

theorem lookup_reverse_eq_none_iff :
    history.reverse.lookup name = none ↔ name ∉ history.map Prod.fst := by
  rw [List.lookup_eq_none_iff]
  simp only [List.mem_reverse, bne_iff_ne, List.mem_map, not_exists, not_and]
  constructor
  · intro h b hb heq
    exact h b hb heq.symm
  · intro h b hb heq
    exact h b hb heq.symm

end Histories

namespace Made

variable {env env' : Environment} {history history' : List (String × Value)} {name : String}
  {value : Value}

/-- Binding one more name is collecting one more pair. -/
theorem eq_ofList (h : Made env history) : env = ofList history := by
  induction h with
  | empty => rfl
  | collected pairs => rfl
  | bound h name value ih => rw [ofList_append_singleton, ← ih]

theorem get?_eq_some_iff (h : Made env history) :
    env.get? name = some value ↔ LastBound history name value := by
  rw [h.eq_ofList, get?_ofList, lookup_reverse_eq_some_iff]

theorem get?_eq_none_iff (h : Made env history) :
    env.get? name = none ↔ name ∉ history.map Prod.fst := by
  rw [h.eq_ofList, get?_ofList, lookup_reverse_eq_none_iff]

theorem mem_toList_iff (h : Made env history) :
    (name, value) ∈ env.toList ↔ LastBound history name value := by
  rw [toList, mem_bindings_iff, h.get?_eq_some_iff]

theorem mem_names_iff (h : Made env history) :
    name ∈ env.toList.map Prod.fst ↔ name ∈ history.map Prod.fst := by
  rw [← not_iff_not, ← h.get?_eq_none_iff, Option.eq_none_iff_forall_ne_some]
  simp only [List.mem_map, Prod.exists, exists_and_right, exists_eq_right, not_exists, toList,
    mem_bindings_iff]

/-- A name of the history is listed once, and no other name is. -/
theorem count_names (h : Made env history) (name : String) :
    (env.toList.map Prod.fst).count name = if name ∈ history.map Prod.fst then 1 else 0 := by
  have hnodup : (env.toList.map Prod.fst).Nodup := by
    refine List.pairwise_map.mpr (env.sorted.imp ?_)
    intro b b' hlt heq
    exact String.lt_irrefl b'.1 (heq ▸ hlt)
  rw [hnodup.count]
  simp only [h.mem_names_iff]

/-- Histories make the same environment if they have the same last bindings. -/
theorem eq_iff (h : Made env history) (h' : Made env' history') :
    env = env' ↔ ∀ name value, LastBound history name value ↔ LastBound history' name value := by
  constructor
  · rintro rfl name value
    rw [← h.get?_eq_some_iff, h'.get?_eq_some_iff]
  · intro hlast
    refine ext_get? ?_
    intro name
    refine Option.ext ?_
    intro value
    rw [h.get?_eq_some_iff, h'.get?_eq_some_iff, hlast]

end Made

theorem pairwise_lex_toList (env : Environment) : env.toList.Pairwise fun b b' =>
    List.Lex (· < ·) (Text.codePoints b.1) (Text.codePoints b'.1) := by
  exact env.sorted.imp Text.lex_codePoints_of_lt

theorem eq_iff_get?_eq {env env' : Environment} :
    env = env' ↔ ∀ name, env.get? name = env'.get? name := by
  constructor
  · rintro rfl name
    rfl
  · exact ext_get?

/-- Bindings of different names may change places. -/
theorem insert_insert_of_ne (env : Environment) {name name' : String} (h : name ≠ name')
    (value value' : Value) : (env.insert name value).insert name' value' =
      (env.insert name' value').insert name value := by
  refine ext_get? ?_
  intro k
  simp only [get?_insert]
  by_cases hk : k = name
  · rw [if_neg (hk ▸ h), if_pos hk, if_pos hk]
  · rw [if_neg hk, if_neg hk]

/-- Of two bindings of a name, the later one stays. -/
theorem insert_insert_self (env : Environment) (name : String) (value value' : Value) :
    (env.insert name value).insert name value' = env.insert name value' := by
  refine ext_get? ?_
  intro k
  simp only [get?_insert]
  by_cases hk : k = name
  · rw [if_pos hk, if_pos hk]
  · rw [if_neg hk, if_neg hk, if_neg hk]

end Environment

/-- The same location and the same value of every name. -/
def ProgramState.Alike {L : Type} (s t : ProgramState L) : Prop :=
  s.location = t.location ∧ ∀ name, s.env.get? name = t.env.get? name

/-- The same locations and the same value of every name. -/
def SystemState.Alike {L : Type} (s t : SystemState L) : Prop :=
  s.locations = t.locations ∧ ∀ name, s.env.get? name = t.env.get? name

/-- States that a relation does not tell apart are one state. A transition system has one
    number for it and does not take it in again, and a search that comes to it only records
    the step. -/
structure KnownBy {σ : Type} [DecidableEq σ] (alike : σ → σ → Prop) : Prop where
  eq_iff : ∀ s t, s = t ↔ alike s t
  number : ∀ (system : TransitionSystem σ String String) (i j : Nat) (s t : σ),
    system.state? i = some s → system.state? j = some t → alike s t → i = j
  enter : ∀ (system : TransitionSystem σ String String) (id : Nat) (s t : σ),
    system.state? id = some s → alike s t → system.insertState t = (system, id, false)
  record : ∀ (search : Search σ) (limits : Limits) (source id : Nat) (action : String)
    (origin s t : σ), search.system.state? source = some origin →
    search.system.state? id = some s → alike s t →
    search.record limits source action t =
      .ok { search with system := search.system.withStep ⟨source, action, id⟩ }

section States

variable {L : Type}

theorem knownBy_of_eq_iff {σ : Type} [DecidableEq σ] {alike : σ → σ → Prop}
    (h : ∀ s t, s = t ↔ alike s t) : KnownBy alike where
  eq_iff := h
  number _ _ _ _ _ hi hj halike := by
    rw [← (h _ _).mpr halike] at hj
    exact TransitionSystem.state?_inj hi hj
  enter _ _ _ _ hid halike := by
    rw [← (h _ _).mpr halike]
    exact TransitionSystem.insertState_of_mem hid
  record _ _ _ _ _ _ _ _ hsource hid halike := by
    rw [← (h _ _).mpr halike]
    exact Search.record_of_known hsource hid

theorem ProgramState.eq_iff_alike (s t : ProgramState L) : s = t ↔ s.Alike t := by
  rw [ProgramState.Alike, ← Environment.eq_iff_get?_eq]
  cases s
  cases t
  exact ProgramState.mk.injEq .. ▸ Iff.rfl

theorem SystemState.eq_iff_alike (s t : SystemState L) : s = t ↔ s.Alike t := by
  rw [SystemState.Alike, ← Environment.eq_iff_get?_eq]
  cases s
  cases t
  exact SystemState.mk.injEq .. ▸ Iff.rfl

end States

namespace Environment

/-- However an environment was made, it lists each name of its history once, by code points
    and with the value bound last. Environments are equal if and only if they have the same
    values, so bindings of different names may change places, a later binding of a name takes
    the place of an earlier one, and states are known by their locations and values. -/
theorem made_by_last_bindings (L : Type) [DecidableEq L] :
    (∀ env history, Made env history →
      (env.toList.Pairwise fun b b' =>
        List.Lex (· < ·) (Text.codePoints b.1) (Text.codePoints b'.1)) ∧
      (∀ name, (env.toList.map Prod.fst).count name =
        if name ∈ history.map Prod.fst then 1 else 0) ∧
      (∀ name value, (name, value) ∈ env.toList ↔ LastBound history name value) ∧
      ∀ name value, env.get? name = some value ↔ LastBound history name value) ∧
    (∀ env history env' history', Made env history → Made env' history' →
      (env = env' ↔ ∀ name, env.get? name = env'.get? name) ∧
      (env = env' ↔ ∀ name value,
        LastBound history name value ↔ LastBound history' name value)) ∧
    (∀ (env : Environment) (name name' : String) (value value' : Value), name ≠ name' →
      (env.insert name value).insert name' value' =
        (env.insert name' value').insert name value) ∧
    (∀ (env : Environment) (name : String) (value value' : Value),
      (env.insert name value).insert name value' = env.insert name value') ∧
    KnownBy (ProgramState.Alike (L := L)) ∧ KnownBy (SystemState.Alike (L := L)) := by
  refine ⟨?_, ?_, ?_, insert_insert_self, knownBy_of_eq_iff ProgramState.eq_iff_alike,
    knownBy_of_eq_iff SystemState.eq_iff_alike⟩
  · intro env history h
    exact ⟨env.pairwise_lex_toList, h.count_names, fun _ _ => h.mem_toList_iff,
      fun _ _ => h.get?_eq_some_iff⟩
  · intro env history env' history' h h'
    exact ⟨eq_iff_get?_eq, h.eq_iff h'⟩
  · intro env name name' value value' hne
    exact env.insert_insert_of_ne hne value value'

end Environment

/-- Two processes that bind a name each, in either order. -/
def ChannelSystem.writers : ChannelSystem String :=
  ⟨[⟨"first", .ofList ["off", "on"], .ofList ["off"], [⟨"off", "", "x:=1", "on"⟩], []⟩,
    ⟨"second", .ofList ["off", "on"], .ofList ["off"], [⟨"off", "", "y:=2", "on"⟩], []⟩]⟩

/-- Two histories of one environment, and a state that two processes come to in two ways. -/
theorem writers_meet_in_one_state :
    let history := [("x", .int 1), ("é", .int 2), ("x", .int 3), ("z", .bool true), ("x", .int 5)]
    let env := ((Environment.ofList (history.take 3)).insert "z" (.bool true)).insert "x" (.int 5)
    let env' := ((Environment.empty.insert "é" (.int 2)).insert "x" (.int 5)).insert
      "z" (.bool true)
    (env.toList = [("x", .int 5), ("z", .bool true), ("é", .int 2)] ∧
      (env.toList.map Prod.fst).count "x" = 1 ∧
      Environment.LastBound history "x" (.int 5) ∧
      ∀ name, env.get? name = env'.get? name) ∧
    ∃ found, ((ChannelSystem.writers.dynamics (Registry.standard : Registry Id)).explore
        .unbounded 5).run = .ok (some found) ∧
      found.system.states.size = 4 ∧
      ∀ env : Environment, env.get? = (Environment.ofList [("y", .int 2), ("x", .int 1)]).get? →
        found.system.insertState ⟨["on", "on"], env⟩ = (found.system, 3, false) := by
  intro history env env'
  have h := Environment.made_by_last_bindings String
  have hmade : Environment.Made env history :=
    ((Environment.Made.collected (history.take 3)).bound "z" (.bool true)).bound "x" (.int 5)
  have hmade' := ((Environment.Made.empty.bound "é" (.int 2)).bound "x" (.int 5)).bound
    "z" (.bool true)
  have hstates : ((ChannelSystem.writers.dynamics (Registry.standard : Registry Id)).explore
      .unbounded 5).found?.map (·.system.states.toList) =
        some [⟨["off", "off"], .empty⟩, ⟨["on", "off"], .ofList [("x", .int 1)]⟩,
          ⟨["off", "on"], .ofList [("y", .int 2)]⟩,
          ⟨["on", "on"], .ofList [("x", .int 1), ("y", .int 2)]⟩] := by
    decide +kernel
  rcases Option.map_eq_some_iff.mp hstates with ⟨found, hfound, hlist⟩
  have hlast : found.system.state? 3 =
      some ⟨["on", "on"], .ofList [("x", .int 1), ("y", .int 2)]⟩ := by
    rw [TransitionSystem.state?, OrderedSet.get?, hlist]
    rfl
  refine ⟨⟨by decide, ?_, ?_, ?_⟩, found, Explore.run_of_found? hfound, ?_, ?_⟩
  · exact (h.1 env history hmade).2.1 "x"
  · exact ((h.1 env history hmade).2.2.2 "x" (.int 5)).mp (by decide)
  · exact (h.2.1 env history env' _ hmade hmade').1.mp (by decide)
  · rw [OrderedSet.size, hlist]
    rfl
  · intro env henv
    have hsame : Environment.ofList [("y", .int 2), ("x", .int 1)] =
        Environment.ofList [("x", .int 1), ("y", .int 2)] := by
      decide
    refine h.2.2.2.2.2.enter _ _ _ _ hlast ⟨rfl, fun name => ?_⟩
    rw [← hsame, henv]

end Interleaving
