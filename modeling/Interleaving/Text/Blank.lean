import Interleaving.Text.Ranges

/-!
# Blank Texts

Which texts count as blank. A guard left blank stands for the guard that always
holds, and blank is meant as a reader of the text would mean it: every
character with the Unicode property `White_Space` is blank, not only the ASCII
ones. The property has few members, so it is written out as ranges.

Scripts have a narrower notion of space between their tokens; that one lives
with the tokens, in `Script.Token`.

## Main definitions

* `Text.blankRanges`: The code points with the property, as closed ranges.
* `Text.isBlank`: A text all of whose characters are blank.
-/

namespace Interleaving

namespace Text

/-- The code points with the Unicode property `White_Space`, as closed ranges
    in increasing order. -/
def blankRanges : List (Nat × Nat) :=
  [(0x09, 0x0D), (0x20, 0x20), (0x85, 0x85), (0xA0, 0xA0), (0x1680, 0x1680), (0x2000, 0x200A),
    (0x2028, 0x2029), (0x202F, 0x202F), (0x205F, 0x205F), (0x3000, 0x3000)]

/-- A character of one of the blank ranges. -/
def isBlankChar (c : Char) : Bool :=
  inRanges blankRanges c

/-- A text all of whose characters are blank, the empty text included. -/
def isBlank (text : String) : Bool :=
  text.toList.all isBlankChar

end Text

end Interleaving
