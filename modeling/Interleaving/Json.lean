import Interleaving.Text.Decimal

/-!
# JSON Texts

Values of the interchange format, and how they are written. Of numbers only
integers have a meaning here, and a text must not contain half of a surrogate
pair. What is well formed but has no such meaning is kept as `unreadable`: a
decoder refuses it where it is asked for, and passes over it where it is not.

Writing is compact: no blanks, members in the order given, and in texts only the
quote, the backslash and the characters below the space are escaped.

## Main definitions

* `Json`: Values.
* `Json.render`: A value as a compact text.
-/

namespace Interleaving

/-- Values of the interchange format. -/
inductive Json where
  | null
  | bool (b : Bool)
  | int (n : Int)
  | str (s : String)
  /-- Well formed, but without a meaning here. -/
  | unreadable
  | array (items : List Json)
  | object (members : List (String × Json))

namespace Json

/-- A hexadecimal digit, in lower case. -/
def hexDigit (n : Nat) : Char :=
  Nat.digitChar n

/-- One character of a text. -/
def escapedChar (c : Char) : List Char :=
  match c with
  | '"' => ['\\', '"']
  | '\\' => ['\\', '\\']
  | '\x08' => ['\\', 'b']
  | '\x0c' => ['\\', 'f']
  | '\n' => ['\\', 'n']
  | '\r' => ['\\', 'r']
  | '\t' => ['\\', 't']
  | c =>
    if c.toNat < 0x20 then
      ['\\', 'u', '0', '0', hexDigit (c.toNat / 16), hexDigit (c.toNat % 16)]
    else [c]

/-- A text in quotes. -/
def renderText (s : String) : String :=
  String.ofList ('"' :: s.toList.flatMap escapedChar ++ ['"'])

mutual

/-- A value as a compact text. -/
def render : Json → String
  | null => "null"
  | bool true => "true"
  | bool false => "false"
  | int n => Text.decimal n
  | str s => renderText s
  | unreadable => "null"
  | array items => "[" ++ String.intercalate "," (renderItems items) ++ "]"
  | object members => "\x7b" ++ String.intercalate "," (renderMembers members) ++ "\x7d"

/-- The items of an array. -/
def renderItems : List Json → List String
  | [] => []
  | item :: rest => render item :: renderItems rest

/-- The members of an object. -/
def renderMembers : List (String × Json) → List String
  | [] => []
  | (name, value) :: rest => (renderText name ++ ":" ++ render value) :: renderMembers rest

end

end Json

end Interleaving
