/-!
# Blank characters

The scanner skips blanks between tokens, and a report that quotes a line of the source drops the
blanks at both of its ends.  Both use one class: the Unicode property `White_Space`, which has
twenty-five characters and is larger than the class of blanks in ASCII.
-/

namespace SlotLang
namespace Text

/-- The intervals of code points with the property `White_Space`. -/
def blankIntervals : List (Nat × Nat) :=
  [ (0x9, 0xD), (0x20, 0x20), (0x85, 0x85), (0xA0, 0xA0), (0x1680, 0x1680), (0x2000, 0x200A),
    (0x2028, 0x2029), (0x202F, 0x202F), (0x205F, 0x205F), (0x3000, 0x3000) ]

def isBlank (c : Char) : Bool :=
  blankIntervals.any fun (low, high) => low ≤ c.toNat && c.toNat ≤ high

end Text
end SlotLang
