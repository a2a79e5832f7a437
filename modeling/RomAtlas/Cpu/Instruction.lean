import RomAtlas.AddressMap
import RomAtlas.Cpu.Opcode

/-!
# Instructions

A decoded instruction: where it stands, its opcode and shape, its operand bytes and the width state
under which it was decoded. Everything else is computed from these: its text, where it goes, and the
address of the instruction after it.
-/

namespace RomAtlas

/-- One decoded instruction. -/
structure Instruction where
  address : Int
  opcode : UInt8
  shape : Shape
  operand : List UInt8
  state : WidthState
deriving DecidableEq, Repr

/-- The number that bytes spell, least significant byte first. -/
def littleEndian (bytes : List UInt8) : Nat := bytes.foldr (fun b n => b.toNat + 256 * n) 0

/-- A number below twice the bound read as two's complement, in which it lies below the bound. -/
def signed (bound value : Nat) : Int :=
  if value < bound then value else (value : Int) - 2 * (bound : Int)

namespace Instruction

/-- The number of bytes, the opcode included. -/
def length (i : Instruction) : Nat := 1 + i.operand.length

/-- All bytes of the instruction. -/
def raw (i : Instruction) : List UInt8 := i.opcode :: i.operand

/-- The address after the instruction, in the same bank. -/
def next (i : Instruction) : Int := stepInBank i.address i.length

/-- What the instruction does to the flow of control. -/
def flow (i : Instruction) : Flow := i.shape.flow

/-- The operand as a number. -/
def value (i : Instruction) : Nat := littleEndian i.operand

/-- The code address that the operand spells, for the ways of addressing that spell one. Relative
distances count from the next instruction and stay in the bank. -/
def destination? (i : Instruction) : Option Int :=
  match i.shape.addressing with
  | .absolute => some (bankBase i.address + i.value)
  | .long => some i.value
  | .relative8 => some (stepInBank i.address (2 + signed 0x80 i.value))
  | .relative16 => some (stepInBank i.address (3 + signed 0x8000 i.value))
  | _ => none

/-- Where the instruction may go, as far as it says so itself. -/
def targets (i : Instruction) : List Int :=
  if i.flow.isDirect then i.destination?.toList else []

/-- The operand as the assembler writes it. A block move names its source first, though its bytes
hold the destination first. -/
def operandText (i : Instruction) : String :=
  match i.shape.addressing with
  | .implied => ""
  | .accumulator => "A"
  | .relative8 | .relative16 => (i.destination?.map Hex.address).getD ""
  | .blockMove => ",".intercalate (i.operand.reverse.map fun b => "$" ++ Hex.byte b)
  | a => a.frame.1 ++ "$" ++ Hex.padded (2 * i.operand.length) i.value ++ a.frame.2

/-- A mnemonic with an operand text behind it. -/
def join (m : Mnemonic) (operand : String) : String :=
  if operand = "" then m.name else m.name ++ " " ++ operand

/-- The instruction as the assembler writes it. -/
def text (i : Instruction) : String := join i.shape.mnemonic i.operandText

end Instruction

end RomAtlas
