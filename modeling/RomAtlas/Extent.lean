/-!
# Ranges of offsets

Half-open intervals of offsets into an image.
-/

namespace RomAtlas

/-- The offsets from `start` up to and not including `stop`. -/
structure Extent where
  start : Int
  stop : Int
deriving DecidableEq, Repr

namespace Extent

/-- The number of offsets, negative if the ends are the wrong way round. -/
def size (r : Extent) : Int := r.stop - r.start

/-- Whether an offset lies in the range. -/
def contains (r : Extent) (offset : Int) : Bool := r.start ≤ offset && offset < r.stop

/-- Whether two ranges overlap. -/
def overlaps (r s : Extent) : Bool := r.start < s.stop && s.start < r.stop

/-- By start and then by stop. -/
instance : Ord Extent := ⟨compareLex (compareOn start) (compareOn stop)⟩

instance : Std.TransOrd Extent :=
  inferInstanceAs (Std.TransCmp (compareLex (compareOn start) (compareOn stop)))

end Extent

end RomAtlas
