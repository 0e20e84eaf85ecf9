import Famicom.Processor.Lines
import Famicom.Processor.Opcode
import Famicom.Processor.Registers

/-!
# The state of the processor

Beside its registers the processor is in one of five phases. An instruction is resolved in its first
cycle, which also fixes how many cycles it takes, and has its effect in the last; in between the
processor waits. An interrupt has its effect at once and is waited for afterwards.

A sprite transfer stands beside the phases: while there is one the processor does nothing else, and
goes on where it was once the transfer has ended. Even a jammed processor transfers.
-/

namespace Famicom

/-- An instruction whose operand has been resolved. -/
structure Instruction where
  operation : Operation
  mode : Mode
  /-- Where the operand is, the operand byte itself for an immediate operand. -/
  address : UInt16
  /-- Indexing, or a branch, has left the page. -/
  pageCrossed : Bool
  deriving DecidableEq, Repr

/-- What the processor is doing. -/
inductive Phase where
  /-- The next cycle fetches an opcode. -/
  | fetch
  /-- An instruction has its effect in the last of `left` cycles to come. -/
  | execute (instruction : Instruction) (left : Nat)
  /-- An interrupt has been entered, which takes `left` more cycles. -/
  | enter (left : Nat)
  /-- A reset takes `left` more cycles. -/
  | stall (left : Nat)
  /-- An instruction has stopped the processor until it is reset. -/
  | jammed
  deriving DecidableEq, Repr

/-- A sprite transfer in progress. -/
structure Transfer where
  /-- The page that is copied. -/
  page : UInt8
  /-- Cycles to wait before the first read. -/
  idle : Nat
  /-- Reads and writes done, by turns. -/
  step : Nat := 0
  /-- The byte read and not yet written. -/
  data : UInt8 := 0
  deriving DecidableEq, Repr

namespace Transfer

/-- Reads and writes of a whole transfer. -/
def steps : Nat := 512

/-- The register of the picture chip that a transfer writes to. -/
def target : UInt16 := 0x2004

/-- Where the next byte is read. -/
def source (t : Transfer) : UInt16 := wordOf (UInt8.ofNat (t.step / 2)) t.page

end Transfer

/-- The processor. -/
structure Cpu where
  registers : Registers := {}
  phase : Phase := .fetch
  transfer : Option Transfer := none
  /-- Cycles since the last reset. -/
  cycles : Nat := 0
  deriving DecidableEq, Repr

namespace Cpu

/-- Cycles that a reset and the entry of an interrupt take. -/
def entryCycles : Nat := 7

/-- The vector of the unmaskable interrupt. -/
def nmiVector : UInt16 := 0xfffa

/-- The vector of a reset. -/
def resetVector : UInt16 := 0xfffc

/-- The vector of the maskable interrupt and of the break instruction. -/
def irqVector : UInt16 := 0xfffe

/-- Where the address of the routine for an interrupt is kept. -/
def vector : Interrupt → UInt16
  | .nmi => nmiVector
  | .irq => irqVector

/-- An instruction has stopped the processor. -/
def isJammed (c : Cpu) : Bool := c.phase == .jammed

/-- A sprite transfer is in progress. -/
def isTransferring (c : Cpu) : Bool := c.transfer.isSome

/-- The next cycle fetches an opcode. -/
def atBoundary (c : Cpu) : Bool := c.phase == .fetch && !c.isTransferring

/-- Nothing more happens, not even a transfer, until a reset. -/
def isDead (c : Cpu) : Bool := c.isJammed && !c.isTransferring

/-- The processor is between two instructions, or will never execute another. -/
def isStopped (c : Cpu) : Bool := c.atBoundary || c.isDead

/-- The registers after a reset, the program counter apart. A power cycle clears them; otherwise the
stack pointer moves as if three bytes had been pushed. -/
def resetRegisters (r : Registers) (powerCycle : Bool) : Registers :=
  if powerCycle then { pc := r.pc }
  else { r with sp := r.sp - 3, p := { r.p with interruptDisable := true } }

end Cpu

/-- Whether the look at the interrupt lines at the end of an operation leaves the maskable one out,
from the status before the operation and after it. Only the return from an interrupt restores the
mask in time for the look at its own end. -/
def Operation.isMasked (operation : Operation) (before after : Status) : Bool :=
  match operation with
  | .rti => after.interruptDisable
  | _ => before.interruptDisable

/-- The cycles of an instruction: one more for a crossed page where it costs one, one more for a
branch that is taken, and another for one that leaves the page. -/
def Instruction.cycles (i : Instruction) (opcode : UInt8) (p : Status) : Nat :=
  let page := i.pageCrossed.toNat
  let branch := match i.operation with
    | .branch op => if op.isTaken p then 1 + page else 0
    | _ => 0
  Opcode.cycles opcode + (if Opcode.paysForPage opcode then page else 0) + branch

end Famicom
