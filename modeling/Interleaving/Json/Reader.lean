import Interleaving.Json

/-!
# Reading JSON Texts

A text is one value with blanks around it. Blanks may stand between any two
tokens. As for scripts, a reader gives what it read with
the characters that are left; what stands inside an array or an object is read
by a reader `nested`, and a recursion on the depth of nesting ties the knot. The
length of the text bounds the depth and the number of items.

An escape may name half of a surrogate pair. The halves are kept as code points
until the text is complete, and joined then; a half that stays alone makes the
text unreadable.

A number written with a fraction or an exponent is no integer, and neither is
`-0`.

## Main definitions

* `Json.joinSurrogates`: The characters that code points stand for.
* `Json.parse?`: Reads a text.
-/

namespace Interleaving

namespace Json

/-- Reads something from the front of a text, and gives the characters that are
    left. -/
abbrev Reader (α : Type) : Type :=
  List Char → Option (α × List Char)

namespace Reader

/-- The characters that may stand between tokens. -/
def isSpace (c : Char) : Bool :=
  c == ' ' || c == '\t' || c == '\r' || c == '\n'

/-- A text without the blanks in front of it. -/
def skipSpace (cs : List Char) : List Char :=
  cs.dropWhile isSpace

/-- The value of a hexadecimal digit. -/
def hexValue? (c : Char) : Option Nat :=
  if c.isDigit then some (c.toNat - '0'.toNat)
  else if 'a' ≤ c && c ≤ 'f' then some (c.toNat - 'a'.toNat + 10)
  else if 'A' ≤ c && c ≤ 'F' then some (c.toNat - 'A'.toNat + 10)
  else none

/-- The code point that four hexadecimal digits stand for. -/
def codePoint? (a b c d : Char) : Option Nat := do
  return ((← hexValue? a) * 16 + (← hexValue? b)) * 256 + (← hexValue? c) * 16 + (← hexValue? d)

/-- The character that a one-letter escape stands for. -/
def simpleEscape? : Char → Option Char
  | '"' => some '"'
  | '\\' => some '\\'
  | '/' => some '/'
  | 'b' => some '\x08'
  | 'f' => some '\x0c'
  | 'n' => some '\n'
  | 'r' => some '\r'
  | 't' => some '\t'
  | _ => none

/-- The code points of a text up to the closing quote. -/
def codePoints : Reader (List Nat)
  | '"' :: rest => some ([], rest)
  | '\\' :: 'u' :: a :: b :: c :: d :: rest => do
    let point ← codePoint? a b c d
    let (points, rest) ← codePoints rest
    return (point :: points, rest)
  | '\\' :: escape :: rest => do
    let c ← simpleEscape? escape
    let (points, rest) ← codePoints rest
    return (c.toNat :: points, rest)
  | c :: rest =>
    if c.toNat < 0x20 || c == '\\' then none
    else do
      let (points, rest) ← codePoints rest
      return (c.toNat :: points, rest)
  | [] => none

end Reader

/-- The first half of a surrogate pair. -/
def isHighSurrogate (n : Nat) : Bool :=
  0xD800 ≤ n && n ≤ 0xDBFF

/-- The second half of a surrogate pair. -/
def isLowSurrogate (n : Nat) : Bool :=
  0xDC00 ≤ n && n ≤ 0xDFFF

/-- The characters that code points stand for, two halves of a surrogate pair
    for one, unless a half stands alone. -/
def joinSurrogates : List Nat → Option (List Char)
  | [] => some []
  | [n] =>
    if isHighSurrogate n || isLowSurrogate n then none else some [Char.ofNat n]
  | n :: next :: rest =>
    if isHighSurrogate n then
      if isLowSurrogate next then
        let point := 0x10000 + (n - 0xD800) * 0x400 + (next - 0xDC00)
        (joinSurrogates rest).map (Char.ofNat point :: ·)
      else none
    else if isLowSurrogate n then none
    else (joinSurrogates (next :: rest)).map (Char.ofNat n :: ·)

namespace Reader

/-- A text up to the closing quote, or nothing if it is unreadable. -/
def text : Reader (Option String) := fun cs => do
  let (points, rest) ← codePoints cs
  return ((joinSurrogates points).map String.ofList, rest)

/-- One or more digits. -/
def digits : Reader (List Char) := fun cs =>
  match cs.takeWhile Char.isDigit with
  | [] => none
  | found => some (found, cs.dropWhile Char.isDigit)

/-- The digits of an integer, without superfluous zeros in front. -/
def integerDigits : Reader (List Char)
  | '0' :: rest => some (['0'], rest)
  | cs => digits cs

/-- A fraction, if there is one. -/
def fraction : Reader Bool
  | '.' :: rest => (digits rest).map fun (_, rest) => (true, rest)
  | cs => some (false, cs)

/-- A text without a sign in front of it. -/
def skipSign : List Char → List Char
  | '+' :: rest => rest
  | '-' :: rest => rest
  | cs => cs

/-- An exponent, if there is one. -/
def exponent : Reader Bool
  | 'e' :: rest => (digits (skipSign rest)).map fun (_, rest) => (true, rest)
  | 'E' :: rest => (digits (skipSign rest)).map fun (_, rest) => (true, rest)
  | cs => some (false, cs)

/-- A number without its sign: its integral part, and whether that is all. -/
def magnitude : Reader (Nat × Bool) := fun cs => do
  let (whole, rest) ← integerDigits cs
  let (hasFraction, rest) ← fraction rest
  let (hasExponent, rest) ← exponent rest
  return ((Text.valueOfDigits whole, !hasFraction && !hasExponent), rest)

/-- A number. -/
def number : Reader Json
  | '-' :: rest => do
    let ((n, isWhole), rest) ← magnitude rest
    return (if isWhole && n != 0 then int (-n) else unreadable, rest)
  | cs => do
    let ((n, isWhole), rest) ← magnitude cs
    return (if isWhole then int n else unreadable, rest)

/-- At most `bound` items up to the closing bracket. -/
def items (nested : Reader Json) : (bound : Nat) → Reader (List Json)
  | 0, _ => none
  | bound + 1, cs => do
    let (item, rest) ← nested cs
    match skipSpace rest with
    | ',' :: rest => do
      let (more, rest) ← items nested bound rest
      return (item :: more, rest)
    | ']' :: rest => return ([item], rest)
    | _ => none

/-- One member of an object. -/
def member (nested : Reader Json) : Reader (Option String × Json) := fun cs =>
  match skipSpace cs with
  | '"' :: rest => do
    let (name, rest) ← text rest
    match skipSpace rest with
    | ':' :: rest => do
      let (value, rest) ← nested rest
      return ((name, value), rest)
    | _ => none
  | _ => none

/-- At most `bound` members up to the closing brace. -/
def members (nested : Reader Json) : (bound : Nat) → Reader (List (Option String × Json))
  | 0, _ => none
  | bound + 1, cs => do
    let (first, rest) ← member nested cs
    match skipSpace rest with
    | ',' :: rest => do
      let (more, rest) ← members nested bound rest
      return (first :: more, rest)
    | '\x7d' :: rest => return ([first], rest)
    | _ => none

/-- An object, unless one of its names is unreadable. -/
def objectOf (members : List (Option String × Json)) : Json :=
  match members.mapM fun (name, value) => name.map (·, value) with
  | some named => object named
  | none => unreadable

/-- A value in which arrays and objects nest less than `depth` deep. -/
def value : (depth : Nat) → Reader Json
  | 0, _ => none
  | depth + 1, cs =>
    match skipSpace cs with
    | '"' :: rest => do
      let (s, rest) ← text rest
      return (match s with | some s => str s | none => unreadable, rest)
    | '[' :: rest =>
      match skipSpace rest with
      | ']' :: rest => some (array [], rest)
      | _ => do
        let (found, rest) ← items (value depth) depth rest
        return (array found, rest)
    | '\x7b' :: rest =>
      match skipSpace rest with
      | '\x7d' :: rest => some (object [], rest)
      | _ => do
        let (found, rest) ← members (value depth) depth rest
        return (objectOf found, rest)
    | 'n' :: 'u' :: 'l' :: 'l' :: rest => some (null, rest)
    | 't' :: 'r' :: 'u' :: 'e' :: rest => some (bool true, rest)
    | 'f' :: 'a' :: 'l' :: 's' :: 'e' :: rest => some (bool false, rest)
    | cs => number cs

end Reader

/-- The value of a text. -/
def parse? (s : String) : Option Json :=
  let cs := s.toList
  match Reader.value (cs.length + 1) cs with
  | some (value, rest) => if (Reader.skipSpace rest).isEmpty then some value else none
  | none => none

end Json

end Interleaving
