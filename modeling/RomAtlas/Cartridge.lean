import RomAtlas.AddressMap
import RomAtlas.Image

/-!
# Cartridges

An image under an address map of its size: the bytes read by address. Bytes that follow each other
are read inside one bank, as the processor reads an instruction.
-/

namespace RomAtlas

/-- An image and an address map of the same size. -/
structure Cartridge where
  image : Image
  map : AddressMap
  size_eq : map.size = image.size

namespace Cartridge

/-- Puts an image under an address map, which must be made for its size. -/
def ofImage (image : Image) (map : AddressMap) : Except Fault Cartridge :=
  if h : map.size = image.size then .ok ⟨image, map, h⟩
  else .error (.sizeMismatch map.size image.size)

/-- A cartridge of a dump, in a given layout. -/
def ofDump (dump : Dump) (layout : Layout) (speed : Speed) : Except Fault Cartridge := do
  let image ← Image.ofDump dump
  let map ← AddressMap.ofSize layout image.size speed
  ofImage image map

/-- The byte that an address shows. -/
def byteAt (c : Cartridge) (a : Int) : Except Fault UInt8 := do
  c.image.byteAt (← c.map.offsetOf a)

/-- The little-endian word at an address; its second byte is in the same bank. -/
def word (c : Cartridge) (a : Int) : Except Fault Nat := do
  let low ← c.byteAt a
  let high ← c.byteAt (stepInBank a 1)
  return low.toNat + 256 * high.toNat

/-- The bytes at an address and after it in the same bank. -/
def bytesFrom (c : Cartridge) (a : Int) (count : Nat) : Except Fault (List UInt8) :=
  (List.range count).mapM fun i : Nat => c.byteAt (stepInBank a i)

end Cartridge

end RomAtlas
