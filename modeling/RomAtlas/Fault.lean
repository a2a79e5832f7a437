import RomAtlas.Numeral
import RomAtlas.Region.Basic

/-!
# Faults

What can go wrong with an image, its address map and its regions, each as a cause with the values
that its message shows. `Fault.message` holds all the wording.
-/

namespace RomAtlas

/-- A cause of failure of an operation on an image. -/
inductive Fault where
  /-- The address belongs to no byte of the image. -/
  | unmapped (address : Int)
  /-- An offset outside the image has no address. -/
  | offsetOutside (offset : Int) (size : Nat)
  /-- A byte or region was asked for at an offset outside the image. -/
  | pastEnd (offset : Int) (size : Nat)
  /-- An image has at least one byte. -/
  | emptyImage
  /-- A number handed over as a byte is no byte. -/
  | notAByte
  /-- An address map covers between one byte and four mebibytes. -/
  | sizeUnsupported (size : Int)
  /-- The address map is made for another image size. -/
  | sizeMismatch (mapSize imageSize : Nat)
  /-- The text names no bank layout. -/
  | unknownLayout (text : String)
  /-- The number stands for no byte class. -/
  | unknownClass (number : Int)
  /-- A region does not start where the last one ended, or is empty. -/
  | gapAt (offset : Int) (region : Region)
  /-- The regions do not end where the image ends. -/
  | wrongEnd (stop : Int) (size : Nat)
  /-- No hint range covers the offset. -/
  | notCovered (offset : Int)
  /-- A symbol name is neither absent nor a text. -/
  | nameNotText
  /-- An integer has too many digits to be shown. -/
  | integerTooLong
deriving DecidableEq, Repr

namespace Fault

/-- The wording of a fault. -/
def message : Fault → String
  | unmapped a => "Address " ++ Hex.address a ++ " is not mapped to ROM"
  | offsetOutside o n =>
    "Address " ++ Hex.address o ++ " is not mapped to ROM (ROM offset " ++ Hex.literal o ++
      " outside image of size " ++ Hex.literal n ++ ")"
  | pastEnd o n =>
    "Offset " ++ Hex.literal o ++ " out of bounds for ROM of size " ++ Hex.literal n ++ "."
  | emptyImage => "ROM image must not be empty."
  | notAByte => "bytes must be in range(0, 256)"
  | sizeUnsupported n =>
    "ROM size " ++ Hex.literal n ++ " is outside the supported range (1..0x400000)."
  | sizeMismatch m n =>
    "Mapper ROM size (" ++ Hex.literal m ++ ") does not match the image size (" ++
      Hex.literal n ++ ")."
  | unknownLayout t => "Unknown mapping mode: " ++ t
  | unknownClass n => toString n ++ " is not a valid Classification"
  | gapAt o r => "Regions do not partition the ROM at offset " ++ Hex.literal o ++ ": " ++ r.text
  | wrongEnd e n => "Regions end at " ++ Hex.literal e ++ ", ROM size is " ++ Hex.literal n
  | notCovered o => "No hint covers offset " ++ Hex.literal o
  | nameNotText => "a symbol name must be text"
  | integerTooLong =>
    "Exceeds the limit (" ++ toString Numeral.maxDecimalDigits ++ " digits) for integer string " ++
      "conversion; use sys.set_int_max_str_digits() to increase the limit"

end Fault

end RomAtlas
