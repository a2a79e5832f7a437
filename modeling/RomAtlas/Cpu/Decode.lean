import RomAtlas.Cartridge
import RomAtlas.Cpu.Instruction

/-!
# Decoding

`decode` reads the one instruction at an address under a width state. It fails where the opcode or
an operand byte is not part of the image, and on the reserved opcode. `lengthOf` tells the length of
an instruction without reading any of it.
-/

namespace RomAtlas

/-- Why an instruction cannot be decoded. -/
inductive DecodeCause where
  /-- The opcode cannot be read. -/
  | opcodeUnread (fault : Fault)
  /-- The opcode has no meaning. -/
  | opcodeUndefined (code : Int)
  /-- An operand byte cannot be read. -/
  | operandUnread (mnemonic : Mnemonic) (fault : Fault)
deriving DecidableEq, Repr

/-- The two sorts of decoding failures. -/
inductive DecodeReason where
  | undefined
  | outOfBounds
deriving DecidableEq, Hashable, Repr

/-- The word that stands for a sort of failure. -/
def DecodeReason.name : DecodeReason → String
  | undefined => "UNDEFINED"
  | outOfBounds => "OUT_OF_BOUNDS"

theorem DecodeReason.name_inj {r s : DecodeReason} (h : r.name = s.name) : r = s := by
  cases r <;> cases s <;> simp_all [DecodeReason.name]

/-- A failure to decode, with the address of the instruction. -/
structure DecodeFault where
  address : Int
  cause : DecodeCause
deriving DecidableEq, Repr

namespace DecodeFault

/-- The sort of a failure. -/
def reason (f : DecodeFault) : DecodeReason :=
  match f.cause with
  | .opcodeUndefined _ => .undefined
  | .opcodeUnread _ | .operandUnread _ _ => .outOfBounds

/-- What exactly failed. -/
def detail (f : DecodeFault) : String :=
  match f.cause with
  | .opcodeUnread fault => fault.message
  | .opcodeUndefined code => "opcode $" ++ Hex.padded 2 code
  | .operandUnread m fault => m.name ++ " operand: " ++ fault.message

/-- The wording of a failure. -/
def message (f : DecodeFault) : String :=
  f.reason.name ++ " at " ++ Hex.address f.address ++ ": " ++ f.detail

end DecodeFault

/-- The operand bytes of the instruction at an address, as its way of addressing reads them: they
stand after the opcode, inside its bank. -/
def Addressing.fetch (c : Cartridge) (address : Int) (widths : Widths) (way : Addressing) :
    Except Fault (List UInt8) :=
  let read := c.bytesFrom (stepInBank address 1)
  match way with
  | implied => .ok []
  | accumulator => .ok []
  | immediateM => read widths.accumulatorBytes
  | immediateX => read widths.indexBytes
  | immediate8 => read 1
  | direct => read 1
  | directX => read 1
  | directY => read 1
  | directInd => read 1
  | directXInd => read 1
  | directIndY => read 1
  | directFar => read 1
  | directFarY => read 1
  | stack => read 1
  | stackIndY => read 1
  | absolute => read 2
  | absoluteX => read 2
  | absoluteY => read 2
  | absoluteInd => read 2
  | absoluteXInd => read 2
  | absoluteFar => read 2
  | long => read 3
  | longX => read 3
  | relative8 => read 1
  | relative16 => read 2
  | blockMove => read 2

/-- The instruction at an address under a width state. -/
def decode (c : Cartridge) (address : Int) (state : WidthState) : Except DecodeFault Instruction :=
  match c.byteAt address with
  | .error fault => .error ⟨address, .opcodeUnread fault⟩
  | .ok opcode =>
    match Shape.ofCode? opcode.toNat with
    | none => .error ⟨address, .opcodeUndefined opcode.toNat⟩
    | some shape =>
      match shape.addressing.fetch c address state.widths with
      | .error fault => .error ⟨address, .operandUnread shape.mnemonic fault⟩
      | .ok operand => .ok ⟨address, opcode, shape, operand, state⟩

/-- The length of an instruction by its opcode and the widths alone. It goes by the sizes that are
listed for the ways of addressing and reads no byte. -/
def lengthOf (code : Int) (widths : Widths) : Except DecodeFault Nat :=
  match Shape.ofCode? code with
  | none => .error ⟨0, .opcodeUndefined code⟩
  | some shape => .ok (1 + shape.addressing.operandBytes widths)

end RomAtlas
