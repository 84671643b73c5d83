import Reckon.Text.Range

/-!
# Blank characters

The blank characters are those with the Unicode property White_Space. They separate tokens, and
`trim` removes them around a line.
-/

namespace Reckon.Text

/-- The code points with the property White_Space. -/
def blankRanges : List (Nat × Nat) :=
  [(0x0009, 0x000d), (0x0020, 0x0020), (0x0085, 0x0085), (0x00a0, 0x00a0), (0x1680, 0x1680),
   (0x2000, 0x200a), (0x2028, 0x2029), (0x202f, 0x202f), (0x205f, 0x205f), (0x3000, 0x3000)]

/-- Whether a character is blank. -/
def isBlank (c : Char) : Bool := inRanges c.toNat blankRanges

/-- The text without the blank characters at its two ends. -/
def trimChars (cs : List Char) : List Char :=
  ((cs.dropWhile isBlank).reverse.dropWhile isBlank).reverse

/-- The text without the blank characters at its two ends. -/
def trim (s : String) : String := String.ofList (trimChars s.toList)

end Reckon.Text
