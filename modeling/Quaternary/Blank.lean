/-!
# Blank characters

Blanks may stand anywhere in a line and mean nothing. They are the characters with the Unicode
property White_Space.
-/

namespace Quaternary.Blank

/-- The first and last code of every range of blank characters, in increasing order. -/
def ranges : List (Nat × Nat) :=
  [(0x0009, 0x000D), (0x0020, 0x0020), (0x0085, 0x0085), (0x00A0, 0x00A0), (0x1680, 0x1680),
    (0x2000, 0x200A), (0x2028, 0x2029), (0x202F, 0x202F), (0x205F, 0x205F), (0x3000, 0x3000)]

def isBlank (c : Char) : Bool :=
  ranges.any fun (first, last) => first ≤ c.toNat && c.toNat ≤ last

/-- A text without its blanks. -/
def strip (text : List Char) : List Char := text.filter (!isBlank ·)

end Quaternary.Blank
