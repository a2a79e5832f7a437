import RomAtlas.Decimal.Shortest

/-!
# The text of a floating-point number

Numbers are shown with the fewest digits that read back as the same number. Numbers from `1e-4` up
to `1e16` are written positionally with at least one digit after the point, others with an exponent
of at least two digits.
-/

namespace RomAtlas.Decimal

/-- The decisions of a number format: the exponents of the leading digit that are written
positionally, and the least number of exponent digits. -/
structure Format where
  leastPositional : Int
  mostPositional : Int
  exponentDigits : Nat

/-- The format of numbers in settings and messages. -/
def Format.settings : Format := ⟨-4, 15, 2⟩

/-- The eleven exponent bits of a number of 64 bits. -/
def exponentField (bits : Nat) : Nat := bits / 0x10000000000000 % 0x800

/-- The 52 fraction bits of a number of 64 bits. -/
def fractionField (bits : Nat) : Nat := bits % 0x10000000000000

/-- The magnitude of a finite, nonzero number of 64 bits. -/
def binaryOfBits (bits : Nat) : Binary :=
  let exponent := exponentField bits
  let fraction := fractionField bits
  if exponent = 0 then ⟨fraction, -1074, false⟩
  else ⟨0x10000000000000 + fraction, (exponent : Int) - 1075, fraction = 0 && 1 < exponent⟩

/-- Digits with the point at a place, or with an exponent. -/
def Format.render (f : Format) (d : Scaled) : String :=
  let digits := Nat.toDigits 10 d.digits
  let lead := d.exponent + digits.length - 1
  let zeros (n : Int) : List Char := List.replicate n.toNat '0'
  String.ofList <|
    if f.leastPositional ≤ lead ∧ lead ≤ f.mostPositional then
      if lead < 0 then '0' :: '.' :: (zeros (-lead - 1) ++ digits)
      else
        let whole := (lead + 1).toNat
        let fraction := digits.drop whole
        digits.take whole ++ zeros (whole - digits.length) ++ '.' ::
          (if fraction.isEmpty then ['0'] else fraction)
    else
      let power := Nat.toDigits 10 lead.natAbs
      let point := if digits.length = 1 then digits else digits.take 1 ++ '.' :: digits.drop 1
      point ++ 'e' :: (if lead < 0 then '-' else '+') ::
        (zeros (f.exponentDigits - power.length) ++ power)

/-- The text of a floating-point number. -/
def floatText (x : Float) : String :=
  let bits := x.toBits.toNat
  let sign := if bits / 0x8000000000000000 = 1 then "-" else ""
  if exponentField bits = 0x7FF then
    if fractionField bits = 0 then sign ++ "inf" else "nan"
  else if exponentField bits = 0 ∧ fractionField bits = 0 then sign ++ "0.0"
  else sign ++ Format.settings.render (shortest (binaryOfBits bits))

end RomAtlas.Decimal
