import Core6502.Isa.Operation
import Core6502.Registers

/-!
# The effects of operations

The operations fall into a dozen kinds by what they may touch: one reads an operand into the
registers, another replaces the operand, a third moves a byte to the stack. An `Effect` is
such a kind with the computation that sets one operation apart, and the table `effect?`
assigns each operation its effect. The undocumented combined operations are put together from
the documented ones that they contain.
-/

namespace Core6502

/-- What an operation does, sorted by what it touches besides the program counter. -/
inductive Effect where
  | skip
  | update (next : Registers → Registers)
  /-- Computes new registers from the operand. -/
  | read (use : UInt8 → Registers → Registers)
  /-- Stores a byte in the operand. -/
  | write (value : Registers → UInt8)
  /-- Replaces the operand, and computes new registers as well. -/
  | modify (replace : UInt8 → Registers → UInt8 × Registers)
  /-- Puts a byte on the stack. -/
  | push (value : Registers → UInt8)
  /-- Takes a byte off the stack and computes new registers from it. -/
  | pull (use : UInt8 → Registers → Registers)
  /-- Goes to the operand if the flags say so. -/
  | branch (taken : Status → Bool)
  | jump
  /-- Puts the place of return on the stack and goes to the operand. -/
  | call
  /-- Takes the place of return off the stack and goes there. -/
  | returnFromCall
  /-- Takes P and the place of return off the stack and goes there. -/
  | returnFromInterrupt

namespace Effect

def flags (next : Status → Status) : Effect := update fun r => { r with status := next r.status }

/-- Replaces the operand, then uses the new operand as a second operation would. -/
def fuse (replace : UInt8 → Registers → UInt8 × Registers)
    (use : UInt8 → Registers → Registers) : Effect :=
  modify fun v r =>
    let (result, r) := replace v r
    (result, use result r)

end Effect

/-- The effect of an operation. A software interrupt has none here: the machine has no
interrupt sequence. -/
def Operation.effect? : Operation → Option Effect
  | lda => some (.read Registers.setA)
  | ldx => some (.read Registers.setX)
  | ldy => some (.read Registers.setY)
  | sta => some (.write Registers.a)
  | stx => some (.write Registers.x)
  | sty => some (.write Registers.y)
  | tax => some (.update fun r => r.setX r.a)
  | tay => some (.update fun r => r.setY r.a)
  | txa => some (.update fun r => r.setA r.x)
  | tya => some (.update fun r => r.setA r.y)
  | tsx => some (.update fun r => r.setX r.sp)
  | txs => some (.update fun r => { r with sp := r.x })
  | and => some (.read Registers.andA)
  | ora => some (.read Registers.orA)
  | eor => some (.read Registers.xorA)
  | adc => some (.read Registers.addWithCarry)
  | sbc => some (.read Registers.subtractWithCarry)
  | cmp => some (.read fun v r => r.compare r.a v)
  | cpx => some (.read fun v r => r.compare r.x v)
  | cpy => some (.read fun v r => r.compare r.y v)
  | bit => some (.read Registers.testBits)
  | inc => some (.modify Registers.increment)
  | dec => some (.modify Registers.decrement)
  | inx => some (.update fun r => r.setX (r.x + 1))
  | iny => some (.update fun r => r.setY (r.y + 1))
  | dex => some (.update fun r => r.setX (r.x - 1))
  | dey => some (.update fun r => r.setY (r.y - 1))
  | asl => some (.modify Registers.asl)
  | lsr => some (.modify Registers.lsr)
  | rol => some (.modify Registers.rol)
  | ror => some (.modify Registers.ror)
  | clc => some (.flags fun s => { s with carry := false })
  | sec => some (.flags fun s => { s with carry := true })
  | cli => some (.flags fun s => { s with interruptDisable := false })
  | sei => some (.flags fun s => { s with interruptDisable := true })
  | clv => some (.flags fun s => { s with overflow := false })
  | cld => some (.flags fun s => { s with decimal := false })
  | sed => some (.flags fun s => { s with decimal := true })
  | pha => some (.push Registers.a)
  | php => some (.push fun r => (r.status.union Status.pushed).toByte)
  | pla => some (.pull Registers.setA)
  | plp => some (.pull Registers.pullStatus)
  | jmp => some .jump
  | jsr => some .call
  | rts => some .returnFromCall
  | rti => some .returnFromInterrupt
  | brk => none
  | bpl => some (.branch fun s => !s.negative)
  | bmi => some (.branch Status.negative)
  | bvc => some (.branch fun s => !s.overflow)
  | bvs => some (.branch Status.overflow)
  | bcc => some (.branch fun s => !s.carry)
  | bcs => some (.branch Status.carry)
  | bne => some (.branch fun s => !s.zero)
  | beq => some (.branch Status.zero)
  | nop | ign | skb => some .skip
  | slo => some (.fuse Registers.asl Registers.orA)
  | rla => some (.fuse Registers.rol Registers.andA)
  | sre => some (.fuse Registers.lsr Registers.xorA)
  | rra => some (.fuse Registers.ror Registers.addWithCarry)
  | dcp => some (.fuse Registers.decrement fun v r => r.compare r.a v)
  | isc => some (.fuse Registers.increment Registers.subtractWithCarry)
  | lax => some (.read fun v r => (r.setA v).setX v)
  | sax => some (.write fun r => r.a &&& r.x)

end Core6502
