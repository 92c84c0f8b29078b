import Interleaving.Value

/-!
# Tokens

The words and signs a guard or an action is written in. Between two tokens
there may be spaces, tabs and line ends; nothing else separates them, and a
character that begins no token makes the whole text unreadable.

A token is as long as it can be: a word takes all letters, digits and
underscores that follow, and of two signs that begin alike the longer one wins.
The words `true`, `false` and `skip` are no identifiers. A number that is no
64-bit integer is no token.

The scan is a recursion over the characters. When a token has been found, the
number of its further characters is handed on, and they are passed over one by
one; so the recursion needs no measure beside the text itself.

## Main definitions

* `Token`: Words and signs.
* `Token.first`: The token that begins with a given character.
* `Token.tokenize`: The tokens of a text, unless some part of it is unreadable.

## Theorems

* `Token.scan_eq_scan_drop`: Passing over characters is dropping them.
-/

namespace Interleaving

namespace Script

/-- The words and signs of the language. -/
inductive Token where
  | ident (name : String)
  | bool (b : Bool)
  | number (n : Int64)
  | skip
  | orOr
  | andAnd
  | eqEq
  | bangEq
  | less
  | lessEq
  | greater
  | greaterEq
  | plus
  | minus
  | star
  | slash
  | percent
  | bang
  | opening
  | closing
  | assign
  | semicolon
  | query
  | bar
  deriving DecidableEq, Repr

/-- The characters that may stand between tokens. -/
def isSpace (c : Char) : Bool :=
  c == ' ' || c == '\t' || c == '\r' || c == '\n'

/-- The characters a word can begin with. -/
def isWordStart (c : Char) : Bool :=
  c.isAlpha || c == '_'

/-- The characters a word can go on with. -/
def isWordChar (c : Char) : Bool :=
  c.isAlphanum || c == '_'

namespace Token

/-- The token of a word. -/
def ofWord (word : List Char) : Token :=
  if word = ['t', 'r', 'u', 'e'] then bool true
  else if word = ['f', 'a', 'l', 's', 'e'] then bool false
  else if word = ['s', 'k', 'i', 'p'] then skip
  else ident (String.ofList word)

/-- The token of a sequence of digits. -/
def ofDigits (digits : List Char) : Option Token :=
  (checked (Text.valueOfDigits digits)).map number

/-- The sign that begins with `c` when `rest` follows it, with the number of
    characters it takes from `rest`. -/
def sign (c : Char) (rest : List Char) : Option (Token × Nat) :=
  match c, rest with
  | '|', '|' :: _ => some (orOr, 1)
  | '|', _ => some (bar, 0)
  | '&', '&' :: _ => some (andAnd, 1)
  | '=', '=' :: _ => some (eqEq, 1)
  | '!', '=' :: _ => some (bangEq, 1)
  | '!', _ => some (bang, 0)
  | '<', '=' :: _ => some (lessEq, 1)
  | '<', _ => some (less, 0)
  | '>', '=' :: _ => some (greaterEq, 1)
  | '>', _ => some (greater, 0)
  | ':', '=' :: _ => some (assign, 1)
  | '+', _ => some (plus, 0)
  | '-', _ => some (minus, 0)
  | '*', _ => some (star, 0)
  | '/', _ => some (slash, 0)
  | '%', _ => some (percent, 0)
  | '(', _ => some (opening, 0)
  | ')', _ => some (closing, 0)
  | ';', _ => some (semicolon, 0)
  | '?', _ => some (query, 0)
  | _, _ => none

/-- The token that begins with `c` when `rest` follows it, with the number of
    characters it takes from `rest`. -/
def first (c : Char) (rest : List Char) : Option (Token × Nat) :=
  if isWordStart c then
    let more := rest.takeWhile isWordChar
    some (ofWord (c :: more), more.length)
  else if c.isDigit then
    let more := rest.takeWhile Char.isDigit
    (ofDigits (c :: more)).map fun token => (token, more.length)
  else sign c rest

/-- The tokens of a text whose first `passed` characters belong to a token that
    has been found already. -/
def scan : (passed : Nat) → List Char → Option (List Token)
  | _, [] => some []
  | passed + 1, _ :: rest => scan passed rest
  | 0, c :: rest =>
    if isSpace c then scan 0 rest
    else
      match first c rest with
      | none => none
      | some (token, more) => (scan more rest).map (token :: ·)

/-- Passing over characters one by one is dropping them. -/
theorem scan_eq_scan_drop (passed : Nat) (cs : List Char) :
    scan passed cs = scan 0 (cs.drop passed) := by
  induction cs generalizing passed with
  | nil => cases passed <;> rfl
  | cons c rest ih =>
    cases passed with
    | zero => rfl
    | succ passed => exact ih passed

/-- The tokens of a text, or nothing if some part of it is unreadable. -/
def tokenize (text : String) : Option (List Token) :=
  scan 0 text.toList

end Token

end Script

end Interleaving
