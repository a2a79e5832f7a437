import RomAtlas.Fault
import RomAtlas.Text.Uppercase

/-!
# Address maps

A cartridge shows its image in a 24-bit address space of 256 banks of 64 KiB. In the `loRom` layout
each bank shows 32 KiB in its upper half; in the `hiRom` layout a bank shows 64 KiB. The same byte
is seen at several addresses; `canonical` picks the one that `shownAt` gives for its offset.

Addresses are integers of any size and sign; only their lowest 24 bits count.
-/

namespace RomAtlas

/-- The way an image is spread over the banks. -/
inductive Layout where
  | loRom
  | hiRom
deriving DecidableEq, Repr

namespace Layout

/-- The word that stands for a layout. -/
def name : Layout → String
  | loRom => "LOROM"
  | hiRom => "HIROM"

/-- The layout that a word names, in any case. -/
def ofText (text : String) : Except Fault Layout :=
  if Text.uppercasesTo text "LOROM" then .ok loRom
  else if Text.uppercasesTo text "HIROM" then .ok hiRom
  else .error (.unknownLayout text)

end Layout

/-- The memory speed noted in a cartridge's header; it has no part in the map. -/
inductive Speed where
  | slow
  | fast
deriving DecidableEq, Repr

namespace Speed

/-- The word that stands for a speed. -/
def name : Speed → String
  | slow => "SLOW"
  | fast => "FAST"

/-- The speed that a word names, in any case. -/
def ofText? (text : String) : Option Speed :=
  if Text.uppercasesTo text "SLOW" then some slow
  else if Text.uppercasesTo text "FAST" then some fast
  else none

end Speed

/-- The largest image that the address space shows, four mebibytes. -/
def maxImageSize : Nat := 0x400000

/-- The low 24 bits of an address. -/
def wrapAddress (a : Int) : Int := a % 0x1000000

/-- The bank of an address, as the address of the bank's first byte. -/
def bankBase (a : Int) : Int := wrapAddress a / 0x10000 * 0x10000

/-- Moves an address by a distance inside its bank, as the program counter moves. -/
def stepInBank (a delta : Int) : Int := bankBase a + (a + delta) % 0x10000

/-- A layout together with the size of the image that it spreads. -/
structure AddressMap where
  layout : Layout
  size : Nat
  speed : Speed
  size_pos : 0 < size
  size_le : size ≤ maxImageSize
deriving DecidableEq

namespace AddressMap

/-- An address map for an image size, which must be between one byte and `maxImageSize`. -/
def ofSize (layout : Layout) (size : Int) (speed : Speed) : Except Fault AddressMap :=
  if h : 0 < size.toNat ∧ size.toNat ≤ maxImageSize then
    .ok ⟨layout, size.toNat, speed, h.1, h.2⟩
  else .error (.sizeUnsupported size)

/-- The address at which the byte of an offset is shown. Banks `$7E` and `$7F` are work RAM, so what
`loRom` would show there is shown 128 banks higher. -/
def shownAt (m : AddressMap) (offset : Nat) : Int :=
  match m.layout with
  | .loRom =>
    let bank := offset / 0x8000
    let shown := if bank = 0x7E ∨ bank = 0x7F then bank + 0x80 else bank
    (shown * 0x10000 + 0x8000 + offset % 0x8000 : Nat)
  | .hiRom => (0xC00000 + offset : Nat)

/-- `shownAt` for any integer, refused outside the image. -/
def addressOf (m : AddressMap) (offset : Int) : Except Fault Int :=
  if 0 ≤ offset ∧ offset < m.size then .ok (m.shownAt offset.toNat)
  else .error (.offsetOutside offset m.size)

/-- Where a layout places an address, whatever the size of the image: nowhere in work RAM and in the
lower halves of the system banks, and for `loRom` nowhere in the lower halves of the save-RAM banks.
-/
def place? (layout : Layout) (a : Int) : Option Nat :=
  let wrapped := (wrapAddress a).toNat
  let bank := wrapped / 0x10000
  let lowHalf := wrapped % 0x10000 < 0x8000
  if bank = 0x7E ∨ bank = 0x7F then none
  else if bank % 0x80 < 0x40 ∧ lowHalf then none
  else match layout with
    | .loRom =>
      if 0x70 ≤ bank % 0x80 ∧ lowHalf then none
      else some (bank % 0x80 * 0x8000 + wrapped % 0x8000)
    | .hiRom => some (wrapped % 0x400000)

/-- The offset of the byte that an address shows, if it shows one. -/
def offset? (m : AddressMap) (a : Int) : Option Nat :=
  (place? m.layout a).filter (· < m.size)

/-- The offset of the byte that an address must show. -/
def offsetOf (m : AddressMap) (a : Int) : Except Fault Nat :=
  match m.offset? a with
  | some o => .ok o
  | none => .error (.unmapped a)

/-- Whether an address shows a byte of the image. -/
def shows (m : AddressMap) (a : Int) : Bool := (m.offset? a).isSome

/-- The one address that stands for all addresses of the same byte; an address that shows no byte
stands for itself. -/
def canonical (m : AddressMap) (a : Int) : Int :=
  match m.offset? a with
  | some o => m.shownAt o
  | none => wrapAddress a

theorem lt_size_of_offset? {m : AddressMap} {a : Int} {o : Nat} (h : m.offset? a = some o) :
    o < m.size := by
  simpa using (Option.filter_eq_some_iff.1 h).2

end AddressMap

end RomAtlas
