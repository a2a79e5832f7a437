import RomAtlas.Decimal.FloatText

/-!
# Whole floating-point numbers

An integer and a floating-point number are compared exactly: a number of 64 bits is an integer or it
is not, and no rounding takes part.
-/

namespace RomAtlas.Decimal

/-- The integer that a floating-point number is, if it is one. -/
def whole? (x : Float) : Option Int :=
  let bits := x.toBits.toNat
  let b := binaryOfBits bits
  let unit := Nat.pow 2 (-b.exponent).toNat
  let magnitude : Int := (b.mantissa * Nat.pow 2 b.exponent.toNat / unit : Nat)
  if exponentField bits = 0x7FF ∨ b.mantissa % unit ≠ 0 then none
  else some (if bits / 0x8000000000000000 = 1 then -magnitude else magnitude)

end RomAtlas.Decimal
