/-!
# Operations

The instructions of the processor, sorted by what they do on the bus. An operation of one class has
the same bus accesses as every other of its class, so the classes are what the execution
distinguishes, and the operations within a class differ only in a function on registers and bytes.

The undocumented instructions are in the same classes. Most of them do two documented things at
once.
-/

namespace Famicom

/-- Instructions that read an operand and change registers. -/
inductive LoadOp where
  | lda | ldx | ldy | lax | adc | sbc | and | ora | eor | cmp | cpx | cpy | bit
  | anc | alr | arr | axs | xaa | lxa | las
  deriving DecidableEq, Repr

/-- Instructions that write a register, or two of them combined. -/
inductive StoreOp where
  | sta | stx | sty | sax
  deriving DecidableEq, Repr

/-- Instructions that write a value combined with the high byte of the address. -/
inductive StoreHighOp where
  | sha | shx | shy | tas
  deriving DecidableEq, Repr

/-- Instructions that read an operand and write it back changed. -/
inductive ModifyOp where
  | asl | lsr | rol | ror | inc | dec | slo | rla | sre | rra | dcp | isc
  deriving DecidableEq, Repr

/-- Instructions that change registers alone. -/
inductive RegisterOp where
  | tax | tay | txa | tya | tsx | txs | inx | iny | dex | dey
  | clc | sec | cli | sei | cld | sed | clv
  deriving DecidableEq, Repr

/-- Conditional branches. -/
inductive BranchOp where
  | bcc | bcs | bne | beq | bpl | bmi | bvc | bvs
  deriving DecidableEq, Repr

/-- An instruction, by class. -/
inductive Operation where
  | load (op : LoadOp)
  | store (op : StoreOp)
  | storeHigh (op : StoreHighOp)
  | modify (op : ModifyOp)
  | register (op : RegisterOp)
  | branch (op : BranchOp)
  | nop | pha | php | pla | plp | jmp | jsr | rts | rti | brk | jam
  deriving DecidableEq, Repr

/-! ## Names -/

/-- The name of an instruction that reads an operand. -/
def LoadOp.name : LoadOp → String
  | lda => "LDA" | ldx => "LDX" | ldy => "LDY" | lax => "LAX" | adc => "ADC" | sbc => "SBC"
  | and => "AND" | ora => "ORA" | eor => "EOR" | cmp => "CMP" | cpx => "CPX" | cpy => "CPY"
  | bit => "BIT" | anc => "ANC" | alr => "ALR" | arr => "ARR" | axs => "AXS" | xaa => "XAA"
  | lxa => "LXA" | las => "LAS"

/-- The name of an instruction that writes a register. -/
def StoreOp.name : StoreOp → String
  | sta => "STA" | stx => "STX" | sty => "STY" | sax => "SAX"

/-- The name of an instruction that writes a value combined with the address. -/
def StoreHighOp.name : StoreHighOp → String
  | sha => "SHA" | shx => "SHX" | shy => "SHY" | tas => "TAS"

/-- The name of an instruction that changes its operand. The last one goes by its other name. -/
def ModifyOp.name : ModifyOp → String
  | asl => "ASL" | lsr => "LSR" | rol => "ROL" | ror => "ROR" | inc => "INC" | dec => "DEC"
  | slo => "SLO" | rla => "RLA" | sre => "SRE" | rra => "RRA" | dcp => "DCP" | isc => "ISB"

/-- The name of an instruction that changes registers alone. -/
def RegisterOp.name : RegisterOp → String
  | tax => "TAX" | tay => "TAY" | txa => "TXA" | tya => "TYA" | tsx => "TSX" | txs => "TXS"
  | inx => "INX" | iny => "INY" | dex => "DEX" | dey => "DEY" | clc => "CLC" | sec => "SEC"
  | cli => "CLI" | sei => "SEI" | cld => "CLD" | sed => "SED" | clv => "CLV"

/-- The name of a branch. -/
def BranchOp.name : BranchOp → String
  | bcc => "BCC" | bcs => "BCS" | bne => "BNE" | beq => "BEQ" | bpl => "BPL" | bmi => "BMI"
  | bvc => "BVC" | bvs => "BVS"

namespace Operation

/-- The name of an instruction, three capital letters. -/
def name : Operation → String
  | load op => op.name
  | store op => op.name
  | storeHigh op => op.name
  | modify op => op.name
  | register op => op.name
  | branch op => op.name
  | nop => "NOP" | pha => "PHA" | php => "PHP" | pla => "PLA" | plp => "PLP" | jmp => "JMP"
  | jsr => "JSR" | rts => "RTS" | rti => "RTI" | brk => "BRK" | jam => "JAM"

/-- A conditional branch. -/
def isBranch : Operation → Bool
  | branch _ => true
  | _ => false

end Operation

end Famicom
