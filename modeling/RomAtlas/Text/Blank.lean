import RomAtlas.Text.CodePoints

/-!
# Blanks

The characters with the white-space property, and the four information separators that count as
blanks at the ends of a text but not inside a numeral.
-/

namespace RomAtlas.Text

/-- The code points with the white-space property. -/
def whiteSpaceTable : Array (Nat × Nat) := #[
  (0x9, 0xD), (0x20, 0x20), (0x85, 0x85), (0xA0, 0xA0), (0x1680, 0x1680), (0x2000, 0x200A),
  (0x2028, 0x2029), (0x202F, 0x202F), (0x205F, 0x205F), (0x3000, 0x3000)
]

/-- Whether a character has the white-space property. -/
def isWhiteSpace (c : Char) : Bool := inRanges whiteSpaceTable c

/-- White space and the information separators. -/
def isBlank (c : Char) : Bool := isWhiteSpace c || (0x1C ≤ c.toNat && c.toNat ≤ 0x1F)

/-- A text without the characters of a kind at its two ends. -/
def trim (drop : Char → Bool) (cs : List Char) : List Char :=
  ((cs.dropWhile drop).reverse.dropWhile drop).reverse

end RomAtlas.Text
