import Interleaving.Dynamics.ChannelSystem
import Interleaving.Exploration.Limits
import Interleaving.Json.Reader
import Interleaving.Location

/-!
# JSON Forms

How the types of the library read and are written as JSON.

A value is a plain boolean, integer or text, and which it is shows. An
environment is an object with a member for each binding; when a name is
repeated, the last member counts, but all have to be values. A record is an
object with a member for each field: a field may be missing only if it has a
default, none may be repeated, and members of other names are passed over. A
record may also be an array of its fields in order, without names. An outcome is
its name as a text, or an object with that name and `null`. Limits and numbers
of states are natural numbers below `2 ^ 64`.

## Main definitions

* `JsonForm`: Types with a JSON form.
* `JsonForm.encode`, `JsonForm.decode?`: To and from compact texts.
* `Json.fields?`: The fields of a record.
-/

namespace Interleaving

/-- Types with a JSON form. -/
class JsonForm (α : Type) where
  toJson : α → Json
  ofJson? : Json → Option α

export JsonForm (toJson ofJson?)

namespace JsonForm

variable {α : Type} [JsonForm α]

/-- Something as a compact text. -/
def encode (a : α) : String :=
  (toJson a).render

/-- Something from a text. -/
def decode? (text : String) : Option α := do
  ofJson? (← Json.parse? text)

end JsonForm

/-- The values of the named fields of a record, where some may be missing. -/
def Json.fields? (names : List String) : Json → Option (List (Option Json))
  | .object members =>
    names.mapM fun name =>
      match members.filter (·.1 = name) with
      | [] => some none
      | [(_, value)] => some (some value)
      | _ => none
  | .array items =>
    if items.length ≤ names.length then
      some (names.zipIdx.map fun (_, place) => items[place]?)
    else none
  | _ => none

instance : JsonForm String where
  toJson := .str
  ofJson?
    | .str s => some s
    | _ => none

/-- The natural numbers with a JSON form are those below this bound. -/
def natBound : Nat :=
  UInt64.size

instance : JsonForm Nat where
  toJson n := .int n
  ofJson?
    | .int n => if 0 ≤ n ∧ n < natBound then some n.toNat else none
    | _ => none

instance {α : Type} [JsonForm α] : JsonForm (List α) where
  toJson l := .array (l.map toJson)
  ofJson?
    | .array items => items.mapM ofJson?
    | _ => none

instance {α : Type} [JsonForm α] : JsonForm (Option α) where
  toJson
    | some a => toJson a
    | none => .null
  ofJson?
    | .null => some none
    | json => some <$> ofJson? json

instance : JsonForm Value where
  toJson
    | .bool b => .bool b
    | .int n => .int n.toInt
    | .str s => .str s
  ofJson?
    | .bool b => some (.bool b)
    | .int n => (checked n).map .int
    | .str s => some (.str s)
    | _ => none

instance : JsonForm Location where
  toJson
    | .number n => .int n.toInt
    | .name s => .str s
  ofJson?
    | .int n => (checked n).map .number
    | .str s => some (.name s)
    | _ => none

instance : JsonForm Environment where
  toJson env := .object (env.bindings.map fun (name, value) => (name, toJson value))
  ofJson?
    | .object members => do
      let bindings ← members.mapM fun (name, value) => do return (name, ← ofJson? value)
      return .ofList bindings
    | _ => none

instance {L : Type} [JsonForm L] : JsonForm (ProgramState L) where
  toJson s := .object [("location", toJson s.location), ("env", toJson s.env)]
  ofJson? json :=
    match json.fields? ["location", "env"] with
    | some [some location, some env] => do return ⟨← ofJson? location, ← ofJson? env⟩
    | _ => none

instance {L : Type} [JsonForm L] : JsonForm (SystemState L) where
  toJson s := .object [("locations", toJson s.locations), ("env", toJson s.env)]
  ofJson? json :=
    match json.fields? ["locations", "env"] with
    | some [some locations, some env] => do return ⟨← ofJson? locations, ← ofJson? env⟩
    | _ => none

instance {L : Type} [JsonForm L] : JsonForm (Edge L) where
  toJson e :=
    .object [("from", toJson e.source), ("condition", toJson e.condition),
      ("action", toJson e.action), ("to", toJson e.target)]
  ofJson? json :=
    match json.fields? ["from", "condition", "action", "to"] with
    | some [some source, some condition, some action, some target] => do
      return ⟨← ofJson? source, ← ofJson? condition, ← ofJson? action, ← ofJson? target⟩
    | _ => none

/-- A field that is absent unless it is given. -/
def optionalField? (field : Option Json) : Option (Option Nat) :=
  match field with
  | none => some none
  | some json => ofJson? json

instance : JsonForm Limits where
  toJson l := .object [("max_depth", toJson l.maxDepth), ("max_states", toJson l.maxStates)]
  ofJson? json :=
    match json.fields? ["max_depth", "max_states"] with
    | some [maxDepth, maxStates] => do
      return ⟨← optionalField? maxDepth, ← optionalField? maxStates⟩
    | _ => none

/-- The outcome of a name. -/
def Outcome.ofName? : String → Option Outcome
  | "Complete" => some complete
  | "DepthLimit" => some depthLimit
  | "StateLimit" => some stateLimit
  | _ => none

/-- The name of an outcome. -/
def Outcome.name : Outcome → String
  | complete => "Complete"
  | depthLimit => "DepthLimit"
  | stateLimit => "StateLimit"

instance : JsonForm Outcome where
  toJson o := .str o.name
  ofJson?
    | .str name => Outcome.ofName? name
    | .object [(name, .null)] => Outcome.ofName? name
    | _ => none

end Interleaving
