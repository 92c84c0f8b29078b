import Interleaving.Text.Decimal
import Interleaving.Text.Hidden

/-!
# Names Inside Messages

How a message names the thing it is about. A text stands in double quotes, with
the quote, the backslash and hidden characters escaped, so that the message
keeps to one line, the end of the name can be seen, and two names that look
alike are told apart. A number stands as it is.

What can be named is open: locations and states come from the caller. The class
`Quotable` is what a message asks of them.

## Main definitions

* `Text.quoted`: A text in quotes, escaped.
* `Quotable`: Things a message can name.
* `Verbatim`: A name that is already written the way messages show it.
-/

namespace Interleaving

namespace Text

/-- A code point in lower-case hexadecimal digits, without leading zeros. -/
def hexadecimal (n : Nat) : String :=
  String.ofList (Nat.toDigits 16 n)

/-- One character of a quoted text. -/
def quotedChar (c : Char) : String :=
  match c with
  | '"' => "\\\""
  | '\\' => "\\\\"
  | '\n' => "\\n"
  | '\r' => "\\r"
  | '\t' => "\\t"
  | '\x00' => "\\0"
  | c => if isHidden c then "\\u\x7b" ++ hexadecimal c.toNat ++ "\x7d" else c.toString

/-- A text in double quotes, with the quote, the backslash and hidden
    characters escaped. -/
def quoted (text : String) : String :=
  "\"" ++ String.join (text.toList.map quotedChar) ++ "\""

end Text

/-- Things a message can name. -/
class Quotable (α : Type) where
  /-- The name as it stands in a message. -/
  quote : α → String

instance : Quotable String where
  quote := Text.quoted

instance : Quotable Int64 where
  quote n := Text.decimal n.toInt

/-- A name that is already written the way messages show it. -/
structure Verbatim where
  /-- The name itself. -/
  text : String
  deriving DecidableEq

instance : Quotable Verbatim where
  quote := Verbatim.text

end Interleaving
