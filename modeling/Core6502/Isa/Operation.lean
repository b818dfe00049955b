/-!
# Operations

What the instructions do, named by their assembler mnemonics. The documented operations come
first; the undocumented ones are those that programs rely on in practice.
-/

namespace Core6502

/-- What an instruction does, whatever its addressing mode. -/
inductive Operation where
  -- Loads and stores
  | lda | ldx | ldy | sta | stx | sty
  -- Transfers between registers
  | tax | tay | txa | tya | tsx | txs
  -- Logic and arithmetic
  | and | ora | eor | adc | sbc | cmp | cpx | cpy | bit
  -- Increments and decrements
  | inc | dec | inx | iny | dex | dey
  -- Shifts and rotates
  | asl | lsr | rol | ror
  -- Flags
  | clc | sec | cli | sei | clv | cld | sed
  -- Stack
  | pha | php | pla | plp
  -- Transfer of control
  | jmp | jsr | rts | rti | brk | bpl | bmi | bvc | bvs | bcc | bcs | bne | beq
  -- No effect
  | nop
  -- Two operations in one, undocumented
  | slo | rla | sre | rra | dcp | isc | lax | sax
  -- No effect on an operand, undocumented
  | ign | skb
deriving DecidableEq, Inhabited

namespace Operation

/-- The three letters that an assembler uses. -/
def mnemonic : Operation → String
  | .lda => "LDA"
  | .ldx => "LDX"
  | .ldy => "LDY"
  | .sta => "STA"
  | .stx => "STX"
  | .sty => "STY"
  | .tax => "TAX"
  | .tay => "TAY"
  | .txa => "TXA"
  | .tya => "TYA"
  | .tsx => "TSX"
  | .txs => "TXS"
  | .and => "AND"
  | .ora => "ORA"
  | .eor => "EOR"
  | .adc => "ADC"
  | .sbc => "SBC"
  | .cmp => "CMP"
  | .cpx => "CPX"
  | .cpy => "CPY"
  | .bit => "BIT"
  | .inc => "INC"
  | .dec => "DEC"
  | .inx => "INX"
  | .iny => "INY"
  | .dex => "DEX"
  | .dey => "DEY"
  | .asl => "ASL"
  | .lsr => "LSR"
  | .rol => "ROL"
  | .ror => "ROR"
  | .clc => "CLC"
  | .sec => "SEC"
  | .cli => "CLI"
  | .sei => "SEI"
  | .clv => "CLV"
  | .cld => "CLD"
  | .sed => "SED"
  | .pha => "PHA"
  | .php => "PHP"
  | .pla => "PLA"
  | .plp => "PLP"
  | .jmp => "JMP"
  | .jsr => "JSR"
  | .rts => "RTS"
  | .rti => "RTI"
  | .brk => "BRK"
  | .bpl => "BPL"
  | .bmi => "BMI"
  | .bvc => "BVC"
  | .bvs => "BVS"
  | .bcc => "BCC"
  | .bcs => "BCS"
  | .bne => "BNE"
  | .beq => "BEQ"
  | .nop => "NOP"
  | .slo => "SLO"
  | .rla => "RLA"
  | .sre => "SRE"
  | .rra => "RRA"
  | .dcp => "DCP"
  | .isc => "ISC"
  | .lax => "LAX"
  | .sax => "SAX"
  | .ign => "IGN"
  | .skb => "SKB"

/-- The operations that only read their operand and come with an indexed mode. In such a mode
they spend a cycle on the high byte of the address only if the index changes it. -/
def readsIndexed : Operation → Bool
  | lda | ldx | ldy | and | ora | eor | adc | sbc | cmp | lax | ign => true
  | _ => false

def isDocumented : Operation → Bool
  | slo | rla | sre | rra | dcp | isc | lax | sax | ign | skb => false
  | _ => true

end Operation

end Core6502
