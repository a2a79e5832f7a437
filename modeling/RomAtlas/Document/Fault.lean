import RomAtlas.Calendar
import RomAtlas.Numeral

/-!
# Faults of a document

What can be wrong with the text of a project file, each as a cause with the values that its message
shows.
-/

namespace RomAtlas

/-- A cause for which a text has no value. -/
inductive DocumentFault where
  /-- The text is not well formed. -/
  | malformed
  /-- A numeral has no digit behind the mark of its base. -/
  | noDigits (base : Nat)
  /-- A numeral in base ten is too long. -/
  | tooManyDigits (count : Nat)
  /-- An escape names a number beyond the code points. -/
  | noCodePoint
  /-- An escape names a number beyond 31 bits. -/
  | escapeTooLarge
  /-- A power of sixty exceeds the range of floating-point numbers. -/
  | powerTooLarge
  /-- A day or time does not exist. -/
  | noSuchTime (fault : CalendarFault)
deriving DecidableEq, Repr

/-- The wording of a fault, for those that have one. -/
def DocumentFault.message? : DocumentFault → Option String
  | malformed | escapeTooLarge | powerTooLarge => none
  | noDigits base => some ("invalid literal for int() with base " ++ toString base ++ ": ''")
  | tooManyDigits count =>
    some ("Exceeds the limit (" ++ toString Numeral.maxDecimalDigits ++
      " digits) for integer string conversion: value has " ++ toString count ++
      " digits; use sys.set_int_max_str_digits() to increase the limit")
  | noCodePoint => some "chr() arg not in range(0x110000)"
  | noSuchTime fault => some fault.message

end RomAtlas
