/-!
# Blank characters

The characters that separate the words of a formula and that do not count as
content.  They are the characters with the Unicode property White_Space, so
a text of no-break spaces is as empty as a text of ordinary ones.
-/

namespace TournamentScoring.Text

/-- The closed ranges of code points with the property White_Space. -/
def blankRanges : List (Nat × Nat) :=
  [(0x9, 0xD), (0x20, 0x20), (0x85, 0x85), (0xA0, 0xA0), (0x1680, 0x1680),
    (0x2000, 0x200A), (0x2028, 0x2029), (0x202F, 0x202F), (0x205F, 0x205F),
    (0x3000, 0x3000)]

def isBlank (character : Char) : Bool :=
  blankRanges.any fun range =>
    range.1 ≤ character.toNat && character.toNat ≤ range.2

/-- A text with no content: trimming it leaves nothing. -/
def isBlankText (text : String) : Bool :=
  text.toList.all isBlank

end TournamentScoring.Text
