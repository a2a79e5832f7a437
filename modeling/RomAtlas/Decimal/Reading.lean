/-!
# Reading decimals

The floating-point number nearest to a decimal. Exponents far outside the range of the format are
settled before the power of ten is formed.
-/

namespace RomAtlas.Decimal

/-- The number nearest to `digits * 10 ^ exponent`, with a sign that zero keeps. -/
def toFloat (negative : Bool) (digits : Nat) (exponent : Int) : Float :=
  let lead := exponent + (Nat.toDigits 10 digits).length
  let magnitude : Float :=
    if digits = 0 ∨ lead < -400 then 0.0
    else if 400 < lead then 1.0 / 0.0
    else Float.ofScientific digits (exponent < 0) exponent.natAbs
  if negative then -magnitude else magnitude

end RomAtlas.Decimal
