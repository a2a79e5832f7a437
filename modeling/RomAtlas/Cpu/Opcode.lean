import RomAtlas.Cpu.WidthState

/-!
# Opcodes

The shape of an instruction: its mnemonic, how it addresses its operand and what it does to the flow
of control. `Shape.table` lists the shapes of the 256 opcodes in order. Opcode `$42` is reserved and
has none.

* `Addressing.operandBytes`: only the two immediate forms depend on the widths.
-/

namespace RomAtlas

/-- The operations of the processor. -/
inductive Mnemonic where
  | adc | and | asl | bcc | bcs | beq | bit | bmi | bne | bpl | bra | brk | brl | bvc | bvs | clc
  | cld | cli | clv | cmp | cop | cpx | cpy | dec | dex | dey | eor | inc | inx | iny | jml | jmp
  | jsl | jsr | lda | ldx | ldy | lsr | mvn | mvp | nop | ora | pea | pei | per | pha | phb | phd
  | phk | php | phx | phy | pla | plb | pld | plp | plx | ply | rep | rol | ror | rti | rtl | rts
  | sbc | sec | sed | sei | sep | sta | stp | stx | sty | stz | tax | tay | tcd | tcs | tdc | trb
  | tsb | tsc | tsx | txa | txs | txy | tya | tyx | wai | xba | xce
deriving DecidableEq, Repr

/-- The assembler's word for an operation. -/
def Mnemonic.name : Mnemonic → String
  | adc => "ADC"
  | and => "AND"
  | asl => "ASL"
  | bcc => "BCC"
  | bcs => "BCS"
  | beq => "BEQ"
  | bit => "BIT"
  | bmi => "BMI"
  | bne => "BNE"
  | bpl => "BPL"
  | bra => "BRA"
  | brk => "BRK"
  | brl => "BRL"
  | bvc => "BVC"
  | bvs => "BVS"
  | clc => "CLC"
  | cld => "CLD"
  | cli => "CLI"
  | clv => "CLV"
  | cmp => "CMP"
  | cop => "COP"
  | cpx => "CPX"
  | cpy => "CPY"
  | dec => "DEC"
  | dex => "DEX"
  | dey => "DEY"
  | eor => "EOR"
  | inc => "INC"
  | inx => "INX"
  | iny => "INY"
  | jml => "JML"
  | jmp => "JMP"
  | jsl => "JSL"
  | jsr => "JSR"
  | lda => "LDA"
  | ldx => "LDX"
  | ldy => "LDY"
  | lsr => "LSR"
  | mvn => "MVN"
  | mvp => "MVP"
  | nop => "NOP"
  | ora => "ORA"
  | pea => "PEA"
  | pei => "PEI"
  | per => "PER"
  | pha => "PHA"
  | phb => "PHB"
  | phd => "PHD"
  | phk => "PHK"
  | php => "PHP"
  | phx => "PHX"
  | phy => "PHY"
  | pla => "PLA"
  | plb => "PLB"
  | pld => "PLD"
  | plp => "PLP"
  | plx => "PLX"
  | ply => "PLY"
  | rep => "REP"
  | rol => "ROL"
  | ror => "ROR"
  | rti => "RTI"
  | rtl => "RTL"
  | rts => "RTS"
  | sbc => "SBC"
  | sec => "SEC"
  | sed => "SED"
  | sei => "SEI"
  | sep => "SEP"
  | sta => "STA"
  | stp => "STP"
  | stx => "STX"
  | sty => "STY"
  | stz => "STZ"
  | tax => "TAX"
  | tay => "TAY"
  | tcd => "TCD"
  | tcs => "TCS"
  | tdc => "TDC"
  | trb => "TRB"
  | tsb => "TSB"
  | tsc => "TSC"
  | tsx => "TSX"
  | txa => "TXA"
  | txs => "TXS"
  | txy => "TXY"
  | tya => "TYA"
  | tyx => "TYX"
  | wai => "WAI"
  | xba => "XBA"
  | xce => "XCE"

/-- The ways an instruction finds its operand. -/
inductive Addressing where
  | implied
  | accumulator
  /-- A constant as wide as the accumulator. -/
  | immediateM
  /-- A constant as wide as the index registers. -/
  | immediateX
  | immediate8
  | direct
  | directX
  | directY
  | directInd
  | directXInd
  | directIndY
  | directFar
  | directFarY
  | stack
  | stackIndY
  | absolute
  | absoluteX
  | absoluteY
  | absoluteInd
  | absoluteXInd
  | absoluteFar
  | long
  | longX
  | relative8
  | relative16
  | blockMove
deriving DecidableEq, Repr

namespace Addressing

/-- The template by which a way of addressing is known. -/
def name : Addressing → String
  | implied => "imp"
  | accumulator => "A"
  | immediateM => "#m"
  | immediateX => "#x"
  | immediate8 => "#8"
  | direct => "dp"
  | directX => "dp,X"
  | directY => "dp,Y"
  | directInd => "(dp)"
  | directXInd => "(dp,X)"
  | directIndY => "(dp),Y"
  | directFar => "[dp]"
  | directFarY => "[dp],Y"
  | stack => "sr,S"
  | stackIndY => "(sr,S),Y"
  | absolute => "abs"
  | absoluteX => "abs,X"
  | absoluteY => "abs,Y"
  | absoluteInd => "(abs)"
  | absoluteXInd => "(abs,X)"
  | absoluteFar => "[abs]"
  | long => "long"
  | longX => "long,X"
  | relative8 => "rel8"
  | relative16 => "rel16"
  | blockMove => "src,dst"

/-- The number of operand bytes that is listed for a way of addressing, under given widths. -/
def operandBytes (w : Widths) : Addressing → Nat
  | implied | accumulator => 0
  | immediateM => w.accumulatorBytes
  | immediateX => w.indexBytes
  | immediate8 | direct | directX | directY | directInd | directXInd | directIndY | directFar
  | directFarY | stack | stackIndY | relative8 => 1
  | absolute | absoluteX | absoluteY | absoluteInd | absoluteXInd | absoluteFar | relative16
  | blockMove => 2
  | long | longX => 3

/-- What the assembler writes before and after the operand's value. -/
def frame : Addressing → String × String
  | implied | accumulator | direct | absolute | long => ("", "")
  | relative8 | relative16 | blockMove => ("", "")
  | immediateM | immediateX | immediate8 => ("#", "")
  | directX | absoluteX | longX => ("", ",X")
  | directY | absoluteY => ("", ",Y")
  | directInd | absoluteInd => ("(", ")")
  | directXInd | absoluteXInd => ("(", ",X)")
  | directIndY => ("(", "),Y")
  | directFar | absoluteFar => ("[", "]")
  | directFarY => ("[", "],Y")
  | stack => ("", ",S")
  | stackIndY => ("(", ",S),Y")

end Addressing

/-- What an instruction does to the flow of control. -/
inductive Flow where
  | sequential
  | branch
  | branchAlways
  | jump
  | call
  | indirectJump
  | indirectCall
  /-- Back to a caller. -/
  | leave
  | halt
deriving DecidableEq, Repr

namespace Flow

/-- The word that stands for a kind of flow. -/
def name : Flow → String
  | sequential => "SEQUENTIAL"
  | branch => "BRANCH"
  | branchAlways => "BRANCH_ALWAYS"
  | jump => "JUMP"
  | call => "CALL"
  | indirectJump => "INDIRECT_JUMP"
  | indirectCall => "INDIRECT_CALL"
  | leave => "RETURN"
  | halt => "HALT"

/-- Nothing follows on this path. -/
def isTerminal (f : Flow) : Bool := f = leave ∨ f = halt

/-- Control comes back to the next instruction. -/
def isCall (f : Flow) : Bool := f = call ∨ f = indirectCall

/-- The target is read from memory. -/
def isIndirect (f : Flow) : Bool := f = indirectJump ∨ f = indirectCall

/-- The target stands in the instruction. -/
def isDirect (f : Flow) : Bool := f = branch ∨ f = branchAlways ∨ f = jump ∨ f = call

end Flow

/-- An operation, the way it finds its operand and what it does to the flow of control. -/
structure Shape where
  mnemonic : Mnemonic
  addressing : Addressing
  flow : Flow
deriving DecidableEq, Repr

namespace Shape

/-- The shape of an opcode after which control goes on to the next instruction. -/
def seq (mnemonic : Mnemonic) (addressing : Addressing) : Option Shape :=
  some ⟨mnemonic, addressing, .sequential⟩

/-- The shapes of the opcodes `$00` to `$FF`. -/
def table : Array (Option Shape) := #[
  -- $00
  some ⟨.brk, .immediate8, .halt⟩, seq .ora .directXInd, some ⟨.cop, .immediate8, .halt⟩,
  seq .ora .stack, seq .tsb .direct, seq .ora .direct, seq .asl .direct, seq .ora .directFar,
  seq .php .implied, seq .ora .immediateM, seq .asl .accumulator, seq .phd .implied,
  seq .tsb .absolute, seq .ora .absolute, seq .asl .absolute, seq .ora .long,
  -- $10
  some ⟨.bpl, .relative8, .branch⟩, seq .ora .directIndY, seq .ora .directInd, seq .ora .stackIndY,
  seq .trb .direct, seq .ora .directX, seq .asl .directX, seq .ora .directFarY, seq .clc .implied,
  seq .ora .absoluteY, seq .inc .accumulator, seq .tcs .implied, seq .trb .absolute,
  seq .ora .absoluteX, seq .asl .absoluteX, seq .ora .longX,
  -- $20
  some ⟨.jsr, .absolute, .call⟩, seq .and .directXInd, some ⟨.jsl, .long, .call⟩, seq .and .stack,
  seq .bit .direct, seq .and .direct, seq .rol .direct, seq .and .directFar, seq .plp .implied,
  seq .and .immediateM, seq .rol .accumulator, seq .pld .implied, seq .bit .absolute,
  seq .and .absolute, seq .rol .absolute, seq .and .long,
  -- $30
  some ⟨.bmi, .relative8, .branch⟩, seq .and .directIndY, seq .and .directInd, seq .and .stackIndY,
  seq .bit .directX, seq .and .directX, seq .rol .directX, seq .and .directFarY, seq .sec .implied,
  seq .and .absoluteY, seq .dec .accumulator, seq .tsc .implied, seq .bit .absoluteX,
  seq .and .absoluteX, seq .rol .absoluteX, seq .and .longX,
  -- $40
  some ⟨.rti, .implied, .leave⟩, seq .eor .directXInd, none, seq .eor .stack, seq .mvp .blockMove,
  seq .eor .direct, seq .lsr .direct, seq .eor .directFar, seq .pha .implied, seq .eor .immediateM,
  seq .lsr .accumulator, seq .phk .implied, some ⟨.jmp, .absolute, .jump⟩, seq .eor .absolute,
  seq .lsr .absolute, seq .eor .long,
  -- $50
  some ⟨.bvc, .relative8, .branch⟩, seq .eor .directIndY, seq .eor .directInd, seq .eor .stackIndY,
  seq .mvn .blockMove, seq .eor .directX, seq .lsr .directX, seq .eor .directFarY,
  seq .cli .implied, seq .eor .absoluteY, seq .phy .implied, seq .tcd .implied,
  some ⟨.jml, .long, .jump⟩, seq .eor .absoluteX, seq .lsr .absoluteX, seq .eor .longX,
  -- $60
  some ⟨.rts, .implied, .leave⟩, seq .adc .directXInd, seq .per .relative16, seq .adc .stack,
  seq .stz .direct, seq .adc .direct, seq .ror .direct, seq .adc .directFar, seq .pla .implied,
  seq .adc .immediateM, seq .ror .accumulator, some ⟨.rtl, .implied, .leave⟩,
  some ⟨.jmp, .absoluteInd, .indirectJump⟩, seq .adc .absolute, seq .ror .absolute, seq .adc .long,
  -- $70
  some ⟨.bvs, .relative8, .branch⟩, seq .adc .directIndY, seq .adc .directInd, seq .adc .stackIndY,
  seq .stz .directX, seq .adc .directX, seq .ror .directX, seq .adc .directFarY, seq .sei .implied,
  seq .adc .absoluteY, seq .ply .implied, seq .tdc .implied,
  some ⟨.jmp, .absoluteXInd, .indirectJump⟩, seq .adc .absoluteX, seq .ror .absoluteX,
  seq .adc .longX,
  -- $80
  some ⟨.bra, .relative8, .branchAlways⟩, seq .sta .directXInd,
  some ⟨.brl, .relative16, .branchAlways⟩, seq .sta .stack, seq .sty .direct, seq .sta .direct,
  seq .stx .direct, seq .sta .directFar, seq .dey .implied, seq .bit .immediateM,
  seq .txa .implied, seq .phb .implied, seq .sty .absolute, seq .sta .absolute, seq .stx .absolute,
  seq .sta .long,
  -- $90
  some ⟨.bcc, .relative8, .branch⟩, seq .sta .directIndY, seq .sta .directInd, seq .sta .stackIndY,
  seq .sty .directX, seq .sta .directX, seq .stx .directY, seq .sta .directFarY, seq .tya .implied,
  seq .sta .absoluteY, seq .txs .implied, seq .txy .implied, seq .stz .absolute,
  seq .sta .absoluteX, seq .stz .absoluteX, seq .sta .longX,
  -- $A0
  seq .ldy .immediateX, seq .lda .directXInd, seq .ldx .immediateX, seq .lda .stack,
  seq .ldy .direct, seq .lda .direct, seq .ldx .direct, seq .lda .directFar, seq .tay .implied,
  seq .lda .immediateM, seq .tax .implied, seq .plb .implied, seq .ldy .absolute,
  seq .lda .absolute, seq .ldx .absolute, seq .lda .long,
  -- $B0
  some ⟨.bcs, .relative8, .branch⟩, seq .lda .directIndY, seq .lda .directInd, seq .lda .stackIndY,
  seq .ldy .directX, seq .lda .directX, seq .ldx .directY, seq .lda .directFarY, seq .clv .implied,
  seq .lda .absoluteY, seq .tsx .implied, seq .tyx .implied, seq .ldy .absoluteX,
  seq .lda .absoluteX, seq .ldx .absoluteY, seq .lda .longX,
  -- $C0
  seq .cpy .immediateX, seq .cmp .directXInd, seq .rep .immediate8, seq .cmp .stack,
  seq .cpy .direct, seq .cmp .direct, seq .dec .direct, seq .cmp .directFar, seq .iny .implied,
  seq .cmp .immediateM, seq .dex .implied, seq .wai .implied, seq .cpy .absolute,
  seq .cmp .absolute, seq .dec .absolute, seq .cmp .long,
  -- $D0
  some ⟨.bne, .relative8, .branch⟩, seq .cmp .directIndY, seq .cmp .directInd, seq .cmp .stackIndY,
  seq .pei .directInd, seq .cmp .directX, seq .dec .directX, seq .cmp .directFarY,
  seq .cld .implied, seq .cmp .absoluteY, seq .phx .implied, some ⟨.stp, .implied, .halt⟩,
  some ⟨.jml, .absoluteFar, .indirectJump⟩, seq .cmp .absoluteX, seq .dec .absoluteX,
  seq .cmp .longX,
  -- $E0
  seq .cpx .immediateX, seq .sbc .directXInd, seq .sep .immediate8, seq .sbc .stack,
  seq .cpx .direct, seq .sbc .direct, seq .inc .direct, seq .sbc .directFar, seq .inx .implied,
  seq .sbc .immediateM, seq .nop .implied, seq .xba .implied, seq .cpx .absolute,
  seq .sbc .absolute, seq .inc .absolute, seq .sbc .long,
  -- $F0
  some ⟨.beq, .relative8, .branch⟩, seq .sbc .directIndY, seq .sbc .directInd, seq .sbc .stackIndY,
  seq .pea .absolute, seq .sbc .directX, seq .inc .directX, seq .sbc .directFarY,
  seq .sed .implied, seq .sbc .absoluteY, seq .plx .implied, seq .xce .implied,
  some ⟨.jsr, .absoluteXInd, .indirectCall⟩, seq .sbc .absoluteX, seq .inc .absoluteX,
  seq .sbc .longX
]

/-- The shape of an opcode, if the number is an opcode with a meaning. -/
def ofCode? (code : Int) : Option Shape :=
  if 0 ≤ code then table[code.toNat]?.join else none

end Shape

end RomAtlas
