import Famicom.Machine.Operand

/-!
# The effect of an instruction

Each class of operations has its own pattern of bus accesses, which is all that is left to say here;
what happens to bytes and registers is said with the registers.
-/

namespace Famicom.Machine

/-- The byte an instruction works on. -/
def operand (m : Machine) (i : Instruction) : UInt8 × Machine :=
  match i.mode with
  | .accumulator => (m.registers.a, m)
  | _ => m.read i.address

/-- Puts back the byte an instruction has worked on. -/
def putBack (m : Machine) (i : Instruction) (value : UInt8) : Machine :=
  match i.mode with
  | .accumulator => m.modifyRegisters fun r ↦ { r with a := value }
  | _ => m.write i.address value

/-- The byte and the address of a store that combines its value with the high byte of the address.
What is combined is one more than the high byte before indexing; if indexing has carried into it,
the result takes the place of the high byte. -/
def combineHigh (i : Instruction) (value : UInt8) : UInt16 × UInt8 :=
  let high := highByte i.address
  if i.pageCrossed then
    let result := value &&& high
    (wordOf (lowByte i.address) result, result)
  else (i.address, value &&& (high + 1))

/-- The status pulled from the stack. -/
def pullStatus (m : Machine) : Machine :=
  let (value, m) := m.pull
  m.modifyRegisters fun r ↦ { r with p := .pulled value }

/-- The effect of an instruction, of which the operand has been resolved. -/
def execute (m : Machine) (i : Instruction) : Machine :=
  match i.operation with
  | .load op =>
    let (value, m) := m.operand i
    m.modifyRegisters (·.load op value)
  | .store op => m.write i.address (m.registers.stored op)
  | .storeHigh op =>
    let (addr, value) := combineHigh i (m.registers.storedHigh op)
    (m.modifyRegisters (·.afterStoreHigh op)).write addr value
  | .modify op =>
    let (value, m) := m.operand i
    let (result, registers) := m.registers.modify op value
    (m.modifyRegisters fun _ ↦ registers).putBack i result
  | .register op => m.modifyRegisters (·.transfer op)
  | .branch op => if op.isTaken m.registers.p then m.jump i.address else m
  | .nop =>
    match i.mode with
    | .implicit | .immediate => m
    | _ => (m.read i.address).2
  | .pha => m.push m.registers.a
  | .php => m.push (m.registers.p.pushed true)
  | .pla => let (value, m) := m.pull; m.modifyRegisters (·.setA value)
  | .plp => m.pullStatus
  | .jmp => m.jump i.address
  | .jsr => (m.pushWord (m.registers.pc - 1)).jump i.address
  | .rts => let (pc, m) := m.pullWord; m.jump (pc + 1)
  | .rti =>
    let (pc, m) := m.pullStatus.pullWord
    m.jump pc
  | .brk => (m.jump (m.registers.pc + 1)).enterInterrupt Cpu.irqVector true
  | .jam => m

end Famicom.Machine
