import Interleaving.Text.Blank
import Interleaving.Text.Extending
import Interleaving.Text.Unassigned

/-!
# Hidden Characters

Characters that a reader would not see, or not see for what they are: controls
and invisible formatting, blanks that look like a space or like nothing, letters
that are drawn as nothing, marks that melt into the character before them, and
code points that no font has to know.

Everything but the controls lies beyond ASCII, so a text of ASCII characters is
settled without a look at the larger classes.

## Main definitions

* `Text.isControl`: Control characters.
* `Text.formatRanges`: Invisible formatting.
* `Text.fillerRanges`: Letters that are drawn as nothing.
* `Text.privateRanges`: Code points left to private agreement.
* `Text.isHidden`: A character of one of these classes, a blank other than the
  space, an extending mark or an unassigned code point.
-/

namespace Interleaving

namespace Text

/-- Control characters, those of ASCII and the second block above it. -/
def isControl (c : Char) : Bool :=
  c.toNat < 0x20 || (0x7F ≤ c.toNat && c.toNat < 0xA0)

/-- The code points of the general category `Cf`: direction marks, joiners,
    invisible operators, tags. -/
def formatRanges : List (Nat × Nat) :=
  [(0xAD, 0xAD), (0x600, 0x605), (0x61C, 0x61C), (0x6DD, 0x6DD), (0x70F, 0x70F), (0x890, 0x891),
    (0x8E2, 0x8E2), (0x180E, 0x180E), (0x200B, 0x200F), (0x202A, 0x202E), (0x2060, 0x2064),
    (0x2066, 0x206F), (0xFEFF, 0xFEFF), (0xFFF9, 0xFFFB), (0x110BD, 0x110BD), (0x110CD, 0x110CD),
    (0x13430, 0x1343F), (0x1BCA0, 0x1BCA3), (0x1D173, 0x1D17A), (0xE0001, 0xE0001),
    (0xE0020, 0xE007F)]

/-- Letters with the Unicode property `Default_Ignorable_Code_Point`: they hold
    the place of a missing part of a Korean syllable and are drawn as nothing. -/
def fillerRanges : List (Nat × Nat) :=
  [(0x115F, 0x1160), (0x3164, 0x3164), (0xFFA0, 0xFFA0)]

/-- The code points of the general category `Co`. -/
def privateRanges : List (Nat × Nat) :=
  [(0xE000, 0xF8FF), (0xF0000, 0xFFFFD), (0x100000, 0x10FFFD)]

/-- A character that a reader would not see, or not see for what it is. The
    space is not one. -/
def isHidden (c : Char) : Bool :=
  isControl c || (0xA0 ≤ c.toNat &&
    (isBlankChar c || inRanges formatRanges c || inRanges fillerRanges c ||
      inRanges privateRanges c || isExtending c || isUnassigned c))

end Text

end Interleaving
