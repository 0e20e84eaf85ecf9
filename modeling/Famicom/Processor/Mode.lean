import Famicom.Word

/-!
# Addressing modes

How an instruction finds its operand. An opcode byte has three fields, `aaabbbcc`: the group `cc`,
the mode `bbb` and the instruction `aaa`; the mode follows from them by a rule for each group. The
rule is total, the fields being taken within their widths, and so covers the opcodes that do nothing
documented.
-/

namespace Famicom

/-- The addressing modes. -/
inductive Mode where
  | implicit
  | accumulator
  | immediate
  | zeroPage
  | zeroPageX
  | zeroPageY
  | relative
  | absolute
  | absoluteX
  | absoluteY
  | indirect
  /-- Through a pointer in page zero, indexed by X before it is followed. -/
  | indirectX
  /-- Through a pointer in page zero, indexed by Y after it has been followed. -/
  | indirectY
  deriving DecidableEq, Repr

namespace Mode

/-- The mode's name. -/
def name : Mode → String
  | implicit => "Implicit"
  | accumulator => "Accumulator"
  | immediate => "Immediate"
  | zeroPage => "ZeroPage"
  | zeroPageX => "ZeroPageX"
  | zeroPageY => "ZeroPageY"
  | relative => "Relative"
  | absolute => "Absolute"
  | absoluteX => "AbsoluteX"
  | absoluteY => "AbsoluteY"
  | indirect => "Indirect"
  | indirectX => "IndirectX"
  | indirectY => "IndirectY"

/-- The operand bytes that follow the opcode. -/
def operandLength : Mode → Nat
  | implicit | accumulator => 0
  | immediate | zeroPage | zeroPageX | zeroPageY | relative | indirectX | indirectY => 1
  | absolute | absoluteX | absoluteY | indirect => 2

end Mode

/-- The three fields of an opcode byte. -/
structure OpcodeFields where
  group : Fin 4
  mode : Fin 8
  instruction : Fin 8
  deriving DecidableEq, Repr

namespace OpcodeFields

/-- The fields of an opcode. -/
def ofOpcode (opcode : UInt8) : OpcodeFields where
  group := low2 opcode.toNat
  mode := low3 (opcode.toNat / 4)
  instruction := low3 (opcode.toNat / 32)

/-- Loads and stores of X index with Y. -/
def usesY (f : OpcodeFields) : Bool := f.instruction.val == 4 || f.instruction.val == 5

/-- The mode of control instructions, branches and the instructions on Y. -/
def controlMode (f : OpcodeFields) : Mode :=
  match f.mode with
  | 0 =>
    if f.instruction.val = 1 then .absolute
    else if f.instruction.val < 4 then .implicit
    else .immediate
  | 1 => .zeroPage
  | 2 => .implicit
  | 3 => if f.instruction.val = 3 then .indirect else .absolute
  | 4 => .relative
  | 5 => .zeroPageX
  | 6 => .implicit
  | 7 => .absoluteX

/-- The mode of shifts, increments and the instructions on X. -/
def shiftMode (f : OpcodeFields) : Mode :=
  match f.mode with
  | 0 => if f.instruction.val < 4 then .implicit else .immediate
  | 1 => .zeroPage
  | 2 => if f.instruction.val < 4 then .accumulator else .implicit
  | 3 => .absolute
  | 4 => .implicit
  | 5 => if f.usesY then .zeroPageY else .zeroPageX
  | 6 => .implicit
  | 7 => if f.usesY then .absoluteY else .absoluteX

/-- The mode of the arithmetic instructions, and of the undocumented ones that share their layout;
only of the latter do some index with Y where the others use X. -/
def arithmeticMode (f : OpcodeFields) : Mode :=
  let indexesY := f.group.val == 3 && f.usesY
  match f.mode with
  | 0 => .indirectX
  | 1 => .zeroPage
  | 2 => .immediate
  | 3 => .absolute
  | 4 => .indirectY
  | 5 => if indexesY then .zeroPageY else .zeroPageX
  | 6 => .absoluteY
  | 7 => if indexesY then .absoluteY else .absoluteX

/-- The addressing mode. -/
def addressing (f : OpcodeFields) : Mode :=
  match f.group with
  | 0 => f.controlMode
  | 2 => f.shiftMode
  | 1 | 3 => f.arithmeticMode

end OpcodeFields

/-- The addressing mode of an opcode. -/
def Mode.ofOpcode (opcode : UInt8) : Mode := (OpcodeFields.ofOpcode opcode).addressing

end Famicom
