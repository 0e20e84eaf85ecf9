import Famicom.Bus
import Famicom.Processor.Cpu

/-!
# The machine

The processor and the bus, and the bus accesses an instruction is made of: reads and writes, fetches
at the program counter, and the stack.
-/

namespace Famicom

/-- The processor and everything it is connected to. -/
structure Machine where
  cpu : Cpu
  bus : Bus

namespace Machine

/-- The machine at power-on, before any reset. -/
def powerOn (tv : Television) (slot : Slot) : Machine := ⟨{}, .powerOn tv slot⟩

/-- The registers. -/
def registers (m : Machine) : Registers := m.cpu.registers

/-- Changes the registers. -/
def modifyRegisters (m : Machine) (change : Registers → Registers) : Machine :=
  match m with
  | ⟨cpu, bus⟩ => ⟨{ cpu with registers := change cpu.registers }, bus⟩

/-- Changes the phase of the processor. -/
def setPhase (m : Machine) (phase : Phase) : Machine :=
  match m with
  | ⟨cpu, bus⟩ => ⟨{ cpu with phase }, bus⟩

/-- A read. -/
def read (m : Machine) (addr : UInt16) : UInt8 × Machine :=
  match m with
  | ⟨cpu, bus⟩ => let (value, bus) := bus.read addr; (value, ⟨cpu, bus⟩)

/-- A write. -/
def write (m : Machine) (addr : UInt16) (value : UInt8) : Machine :=
  match m with
  | ⟨cpu, bus⟩ => ⟨cpu, bus.write addr value⟩

/-- A read of a word, low byte first. -/
def readWord (m : Machine) (addr : UInt16) : UInt16 × Machine :=
  match m with
  | ⟨cpu, bus⟩ => let (value, bus) := bus.readWord addr; (value, ⟨cpu, bus⟩)

/-- A read of a word, low byte first, without leaving the page. -/
def readWordInPage (m : Machine) (addr : UInt16) : UInt16 × Machine :=
  match m with
  | ⟨cpu, bus⟩ => let (value, bus) := bus.readWordInPage addr; (value, ⟨cpu, bus⟩)

/-- Moves the program counter. -/
def jump (m : Machine) (pc : UInt16) : Machine := m.modifyRegisters fun r ↦ { r with pc }

/-- Fetches the byte at the program counter. -/
def fetch (m : Machine) : UInt8 × Machine :=
  let pc := m.registers.pc
  let (value, m) := m.read pc
  (value, m.jump (pc + 1))

/-- Fetches the word at the program counter, low byte first. -/
def fetchWord (m : Machine) : UInt16 × Machine :=
  let (low, m) := m.fetch
  let (high, m) := m.fetch
  (wordOf low high, m)

/-! ## The stack -/

/-- Where a stack pointer points. -/
def stackAddress (sp : UInt8) : UInt16 := wordOf sp 1

/-- Moves the stack pointer. -/
def setStack (m : Machine) (sp : UInt8) : Machine := m.modifyRegisters fun r ↦ { r with sp }

/-- Pushes a byte. -/
def push (m : Machine) (value : UInt8) : Machine :=
  let sp := m.registers.sp
  (m.write (stackAddress sp) value).setStack (sp - 1)

/-- Pushes a word, high byte first. -/
def pushWord (m : Machine) (value : UInt16) : Machine :=
  (m.push (highByte value)).push (lowByte value)

/-- Pulls a byte. -/
def pull (m : Machine) : UInt8 × Machine :=
  let sp := m.registers.sp + 1
  (m.setStack sp).read (stackAddress sp)

/-- Pulls a word, low byte first. -/
def pullWord (m : Machine) : UInt16 × Machine :=
  let (low, m) := m.pull
  let (high, m) := m.pull
  (wordOf low high, m)

/-- Pushes the program counter and the status, and goes on at the address in a vector with
interrupts disabled. -/
def enterInterrupt (m : Machine) (vector : UInt16) (breakMark : Bool) : Machine :=
  let r := m.registers
  let m := (m.pushWord r.pc).push (r.p.pushed breakMark)
  let m := m.modifyRegisters fun r ↦ { r with p := { r.p with interruptDisable := true } }
  let (pc, m) := m.readWord vector
  m.jump pc

end Machine

end Famicom
