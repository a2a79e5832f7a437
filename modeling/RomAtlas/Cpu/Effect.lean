import RomAtlas.Cpu.Instruction

/-!
# Effects on the width state

What an instruction does to the widths, the saved widths and the known carry. `after` gives one
state; `possibleAfter` gives both states where a mode switch depends on an unknown carry.
-/

namespace RomAtlas.WidthState

/-- The status bits that set and clear masks select. -/
structure StatusMask where
  m : Bool
  x : Bool
  carry : Bool

/-- The bits of a mask operand: accumulator width, index width and carry. -/
def StatusMask.ofByte (b : UInt8) : StatusMask :=
  ⟨b.toNat / 0x20 % 2 = 1, b.toNat / 0x10 % 2 = 1, b.toNat % 2 = 1⟩

/-- Clears the selected status bits, which makes registers wide. -/
def clearBits (s : WidthState) (mask : StatusMask) : WidthState :=
  let wide := s.withWidths ⟨s.widths.m16 || mask.m, s.widths.x16 || mask.x⟩
  if mask.carry then wide.withCarry (some false) else wide

/-- Sets the selected status bits, which makes registers narrow. -/
def setBits (s : WidthState) (mask : StatusMask) : WidthState :=
  let slim := s.withWidths ⟨s.widths.m16 && !mask.m, s.widths.x16 && !mask.x⟩
  if mask.carry then slim.withCarry (some true) else slim

/-- Exchanges the carry with the emulation flag. A clear carry leaves the widths; a set or unknown
carry is taken as a switch to emulation, where both are 8 bits. The new carry is unknown. -/
def exchange (s : WidthState) : WidthState :=
  if s.carry = some false then s.withCarry none
  else (s.withWidths Widths.narrow).withCarry none

/-- Whether an operation leaves an unknown carry. Calls do, since the callee may change it. -/
def clobbersCarry : Mnemonic → Bool
  | .adc | .sbc | .cmp | .cpx | .cpy | .asl | .lsr | .rol | .ror | .rti | .jsr | .jsl => true
  | _ => false

/-- The state after an instruction. -/
def after (s : WidthState) (i : Instruction) : WidthState :=
  match i.shape.mnemonic with
  | .rep => s.clearBits (.ofByte (i.operand.headD 0))
  | .sep => s.setBits (.ofByte (i.operand.headD 0))
  | .clc => s.withCarry (some false)
  | .sec => s.withCarry (some true)
  | .xce => s.exchange
  | .php => s.push
  | .plp => s.pop
  | m => if clobbersCarry m then s.withCarry none else s

/-- The states that an instruction may leave: two for a mode switch under an unknown carry with a
wide register, where the first keeps the widths, and one otherwise. -/
def possibleAfter (s : WidthState) (i : Instruction) : List WidthState :=
  if i.shape.mnemonic = .xce ∧ s.carry = none ∧ s.widths ≠ Widths.narrow then
    [s.withCarry none, s.after i]
  else [s.after i]

end RomAtlas.WidthState
