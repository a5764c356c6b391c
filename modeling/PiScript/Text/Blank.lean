/-!
# Blank characters

The characters of the Unicode property `White_Space`. They separate the words of a program. Note
that the information separators U+001C to U+001F, the zero-width space U+200B and the byte order
mark U+FEFF are not blank.
-/

namespace PiScript

namespace Text

/-- The code point ranges of the property `White_Space`, ends included, in increasing order. -/
def blankRanges : List (Nat × Nat) :=
  [(0x9, 0xD), (0x20, 0x20), (0x85, 0x85), (0xA0, 0xA0), (0x1680, 0x1680), (0x2000, 0x200A),
   (0x2028, 0x2029), (0x202F, 0x202F), (0x205F, 0x205F), (0x3000, 0x3000)]

/-- Whether `c` has the property `White_Space`. -/
def isBlank (c : Char) : Bool :=
  blankRanges.any fun (lo, hi) => lo ≤ c.toNat && c.toNat ≤ hi

def trimEnd (cs : List Char) : List Char :=
  (cs.reverse.dropWhile isBlank).reverse

end Text

end PiScript
