import RomAtlas.Fault

/-!
# Images

The bytes of a cartridge, read by offset. An image is never empty.
-/

namespace RomAtlas

/-- The contents of a cartridge as handed over: bytes, or numbers that may not all be bytes. -/
inductive Dump where
  | bytes (contents : Array UInt8)
  | numbers (contents : List Int)

/-- The bytes of a dump. -/
def Dump.toBytes : Dump → Except Fault (Array UInt8)
  | .bytes contents => .ok contents
  | .numbers contents =>
    if contents.all (fun n => 0 ≤ n && n < 256) then
      .ok (contents.map (fun n => UInt8.ofNat n.toNat)).toArray
    else .error .notAByte

/-- The bytes of a cartridge, of which there is at least one. -/
structure Image where
  bytes : Array UInt8
  nonempty : 0 < bytes.size

namespace Image

/-- An image of a dump that has bytes. -/
def ofDump (dump : Dump) : Except Fault Image := do
  let bytes ← dump.toBytes
  if h : 0 < bytes.size then .ok ⟨bytes, h⟩ else .error .emptyImage

/-- The number of bytes. -/
def size (i : Image) : Nat := i.bytes.size

/-- The byte at an offset, which must lie in the image. -/
def byteAt (i : Image) (offset : Int) : Except Fault UInt8 :=
  if h : 0 ≤ offset ∧ offset.toNat < i.bytes.size then .ok (i.bytes[offset.toNat])
  else .error (.pastEnd offset i.size)

/-- A bound of a span as a position in the image: a negative bound counts from the end, and a bound
outside the image moves to the nearer end. -/
def clampBound (i : Image) (bound : Int) : Nat :=
  if bound < 0 then (bound + i.size).toNat else min bound.toNat i.size

/-- The bytes between two bounds, given as an offset and a length; what lies outside is left out. -/
def slice (i : Image) (offset length : Int) : Array UInt8 :=
  i.bytes.extract (i.clampBound offset) (i.clampBound (offset + length))

end Image

end RomAtlas
