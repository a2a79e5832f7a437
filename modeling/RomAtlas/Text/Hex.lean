/-!
# Hexadecimal text

Numbers are written in base sixteen in two ways. `padded` is the form of addresses and operands:
upper case, filled with zeros to a total width that counts the minus sign. `literal` is the form
of sizes and offsets: lower case behind `0x`.
-/

namespace RomAtlas.Hex

/-- The digit of a value below sixteen, in upper case. -/
def upperDigit (d : Nat) : Char := if d < 10 then Char.ofNat (48 + d) else Char.ofNat (55 + d)

/-- The digit of a value below sixteen, in lower case. -/
def lowerDigit (d : Nat) : Char := if d < 10 then Char.ofNat (48 + d) else Char.ofNat (87 + d)

/-- The base-sixteen digits of a number, most significant first; zero has the one digit zero. -/
def digits (digit : Nat → Char) (n : Nat) : List Char :=
  if n < 16 then [digit n] else digits digit (n / 16) ++ [digit (n % 16)]

/-- Zeros in front of a digit string, up to a width. -/
def fill (width : Nat) (cs : List Char) : List Char := List.replicate (width - cs.length) '0' ++ cs

/-- Upper-case digits filled with zeros to a width in which a minus sign takes one place. -/
def padded (width : Nat) (n : Int) : String :=
  let body := digits upperDigit n.natAbs
  String.ofList (if n < 0 then '-' :: fill (width - 1) body else fill width body)

/-- Lower-case digits behind `0x`, the minus sign first. -/
def literal (n : Int) : String :=
  let body := '0' :: 'x' :: digits lowerDigit n.natAbs
  String.ofList (if n < 0 then '-' :: body else body)

/-- The text of an address: a dollar sign and at least six digits. -/
def address (a : Int) : String := "$" ++ padded 6 a

/-- Two digits of a byte, in upper case. -/
def byte (b : UInt8) : String := padded 2 b.toNat

end RomAtlas.Hex
