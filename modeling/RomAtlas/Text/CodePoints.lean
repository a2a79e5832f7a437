/-!
# Tables of code points

A character property is given by the ranges of the code points that have it.
-/

namespace RomAtlas.Text

/-- Whether the code point of a character lies in one of the ranges, whose ends are included. -/
def inRanges (table : Array (Nat × Nat)) (c : Char) : Bool :=
  table.any fun range => range.1 ≤ c.toNat && c.toNat ≤ range.2

end RomAtlas.Text
