import RomAtlas.Text.Hex

/-!
# Byte classes and regions

Every byte of an image ends up in one of four classes. A region is a run of bytes of one class,
given by its first offset and the offset after its last byte.
-/

namespace RomAtlas

/-- What a byte of the image is taken for. -/
inductive ByteClass where
  | unknown
  | code
  | data
  | ambiguous
deriving DecidableEq, Repr

namespace ByteClass

/-- The word that stands for a class in answers and messages. -/
def name : ByteClass → String
  | unknown => "UNKNOWN"
  | code => "CODE"
  | data => "DATA"
  | ambiguous => "AMBIGUOUS"

/-- The number of a class in a class array. -/
def number : ByteClass → Nat
  | unknown => 0
  | code => 1
  | data => 2
  | ambiguous => 3

/-- The class of a number. -/
def ofNumber? : Int → Option ByteClass
  | 0 => some unknown
  | 1 => some code
  | 2 => some data
  | 3 => some ambiguous
  | _ => none

theorem ofNumber?_number (c : ByteClass) : ofNumber? c.number = some c := by
  cases c <;> rfl

end ByteClass

/-- A half-open interval of offsets and the class of its bytes. -/
structure Region where
  start : Int
  stop : Int
  cls : ByteClass
deriving DecidableEq, Repr

namespace Region

/-- The number of bytes, negative if the ends are the wrong way round. -/
def size (r : Region) : Int := r.stop - r.start

/-- Whether an offset lies in the region. -/
def contains (r : Region) (offset : Int) : Bool := r.start ≤ offset && offset < r.stop

/-- The text of a region in messages. -/
def text (r : Region) : String :=
  "Region(start=" ++ toString r.start ++ ", end=" ++ toString r.stop ++
    ", classification=<Classification." ++ r.cls.name ++ ": " ++ toString r.cls.number ++ ">)"

end Region

end RomAtlas
