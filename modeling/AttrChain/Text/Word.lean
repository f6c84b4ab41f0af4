import AttrChain.Text.Digit
import AttrChain.Text.Letter
import AttrChain.Text.Mark
import AttrChain.Text.Recent

/-!
The characters of which names are made.
-/

namespace AttrChain.Text

/-- Connector punctuation, category Pc; the underscore is its only ASCII member. -/
def connectorRanges : List (Nat × Nat) :=
  [(0x5F, 0x5F), (0x203F, 0x2040), (0x2054, 0x2054), (0xFE33, 0xFE34), (0xFE4D, 0xFE4F),
    (0xFF3F, 0xFF3F)]

/-- Whether `c` may stand in a word: a letter, a mark, a decimal digit, connector punctuation or
one of the two joiners, and not one of the recent characters. -/
def isWordChar (c : Char) : Bool :=
  (isLetter c || isDecimal c || inRanges connectorRanges c.toNat || isMark c
    || c.toNat == 0x200C || c.toNat == 0x200D) && !isRecent c

def isWordDigit (c : Char) : Bool := isDecimal c && !isRecent c

def isAlphanumeric (c : Char) : Bool := isLetter c || isNumeric c

end AttrChain.Text
