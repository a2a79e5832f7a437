/-!
# The shortest decimal of a binary number

A binary floating-point number stands for all reals that round to it. `shortest` finds, among the
decimals in that interval, one with the fewest digits, and of those the nearest to the number. It
works on exact integers.
-/

namespace RomAtlas.Decimal

/-- A positive number `mantissa * 2 ^ exponent`; `lowEdge` says that the next smaller number of the
format is only half as far away as the next larger one. -/
structure Binary where
  mantissa : Nat
  exponent : Int
  lowEdge : Bool

/-- A number `digits * 10 ^ exponent`. -/
structure Scaled where
  digits : Nat
  exponent : Int
deriving DecidableEq, Repr

/-- The powers that bring `a * 10 ^ k` and `b * 2 ^ e` to a common integer scale. -/
def scales (k e : Int) : Nat × Nat :=
  (Nat.pow 10 k.toNat * Nat.pow 2 (-e).toNat, Nat.pow 2 e.toNat * Nat.pow 10 (-k).toNat)

/-- The exponent of the leading decimal digit. -/
def leadingExponent (b : Binary) : Int :=
  let shift := 400
  let scaled :=
    b.mantissa * Nat.pow 2 b.exponent.toNat * Nat.pow 10 shift / Nat.pow 2 (-b.exponent).toNat
  ((Nat.toDigits 10 scaled).length : Int) - 1 - (shift : Nat)

/-- The best multiple of `10 ^ k` that rounds to the number: of its two neighbours the one in the
interval, the nearer if both are, the even one if both are equally near. -/
def onGrid? (b : Binary) (k : Int) : Option Nat :=
  let (s, t) := scales k (b.exponent - 2)
  let value := 4 * b.mantissa * t
  let low := (4 * b.mantissa - if b.lowEdge then 1 else 2) * t
  let high := (4 * b.mantissa + 2) * t
  let closed := b.mantissa % 2 = 0
  let fits (c : Nat) : Bool :=
    if closed then low ≤ c * s && c * s ≤ high else low < c * s && c * s < high
  let below := value / s
  let above := below + 1
  if 0 < below && fits below then
    if fits above then
      if value - below * s < above * s - value then some below
      else if above * s - value < value - below * s then some above
      else if below % 2 = 0 then some below else some above
    else some below
  else if fits above then some above else none

/-- Tries grids of one more digit each, at most `fuel` of them. -/
def firstGrid (b : Binary) : Nat → Int → Scaled
  | 0, k => ⟨0, k⟩
  | fuel + 1, k =>
    match onGrid? b k with
    | some c => ⟨c, k⟩
    | none => firstGrid b fuel (k - 1)

/-- Moves trailing zeros of the digits into the exponent. -/
def dropZeros : Nat → Scaled → Scaled
  | 0, d => d
  | fuel + 1, d =>
    if d.digits % 10 = 0 ∧ d.digits ≠ 0 then dropZeros fuel ⟨d.digits / 10, d.exponent + 1⟩ else d

/-- The decimal with the fewest digits that rounds to the number; seventeen digits always do. -/
def shortest (b : Binary) : Scaled := dropZeros 20 (firstGrid b 18 (leadingExponent b))

end RomAtlas.Decimal
