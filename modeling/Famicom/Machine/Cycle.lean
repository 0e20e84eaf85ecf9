import Famicom.Machine.Execute

/-!
# One processor cycle

A cycle first serves a sprite transfer; otherwise it moves the phase of the processor on. When an
instruction completes, it has its effect, then a transfer it has asked for begins, and then the
interrupt lines are looked at.

An instruction that changes the interrupt mask does so too late for the look at its own end: that
look uses the mask from before the instruction. Only the return from an interrupt restores the mask
in time.
-/

namespace Famicom.Machine

/-- Fetched an opcode: resolves its operand and waits for the last cycle. -/
def start (m : Machine) (opcode : UInt8) : Machine :=
  let mode := Mode.ofOpcode opcode
  let (operand, m) := m.resolve mode
  let i : Instruction :=
    ⟨Opcode.operation opcode, mode, operand.address, operand.pageCrossed⟩
  m.setPhase (.execute i (i.cycles opcode m.registers.p - 1))

/-- Begins the sprite transfer that has been asked for, if any. It waits for a cycle of the right
parity. -/
def beginTransfer (m : Machine) : Machine :=
  match m with
  | ⟨cpu, bus⟩ =>
    let (page?, bus) := bus.takeTransfer
    match page? with
    | some page => ⟨{ cpu with transfer := some { page, idle := cpu.cycles % 2 } }, bus⟩
    | none => ⟨cpu, bus⟩

/-- Enters an interrupt. -/
def enter (m : Machine) (interrupt : Interrupt) : Machine :=
  match m with
  | ⟨cpu, bus⟩ =>
    let m : Machine := ⟨cpu, { bus with lines := bus.lines.acknowledge interrupt }⟩
    (m.enterInterrupt (Cpu.vector interrupt) false).setPhase (.enter Cpu.entryCycles)

/-- Enters the interrupt that is asked for, if any. -/
def poll (m : Machine) (masked : Bool) : Machine :=
  match m.bus.lines.accepted? masked with
  | some interrupt => m.enter interrupt
  | none => m

/-- The effect of an instruction, after which the sprite transfer it has asked for begins. -/
def settle (m : Machine) (i : Instruction) : Machine :=
  ((m.setPhase .fetch).execute i).beginTransfer

/-- The last cycle of an instruction. -/
def complete (m : Machine) (i : Instruction) : Machine :=
  let before := m.registers.p
  let m := m.settle i
  match i.operation with
  | .jam => m.setPhase .jammed
  | operation => m.poll (operation.isMasked before m.registers.p)

/-- A cycle of a sprite transfer: waiting, or reading and writing by turns. -/
def stepTransfer (m : Machine) (t : Transfer) : Machine :=
  let put (m : Machine) (t : Option Transfer) : Machine :=
    match m with
    | ⟨cpu, bus⟩ => ⟨{ cpu with transfer := t }, bus⟩
  if 0 < t.idle then put m (some { t with idle := t.idle - 1 })
  else
    let (data, m) :=
      if t.step % 2 = 0 then m.read t.source else (t.data, m.write Transfer.target t.data)
    let step := t.step + 1
    put m (if step < Transfer.steps then some { t with step, data } else none)

/-- Counts a cycle. -/
def countCycle (m : Machine) : Machine :=
  match m with
  | ⟨cpu, bus⟩ => ⟨{ cpu with cycles := cpu.cycles + 1 }, bus⟩

/-- A cycle that no transfer takes, from a phase other than the fetching of an opcode. -/
def movePhase (m : Machine) (phase : Phase) : Machine :=
  match phase with
  | .fetch | .jammed => m
  | .execute i left => if 1 < left then m.setPhase (.execute i (left - 1)) else m.complete i
  | .enter left => m.setPhase (if 1 < left then .enter (left - 1) else .fetch)
  | .stall left => m.setPhase (if 1 < left then .stall (left - 1) else .fetch)

/-- A processor cycle. The chips on the bus are not clocked by it. -/
def cycle (m : Machine) : Machine :=
  let m := m.countCycle
  match m.cpu.transfer, m.cpu.phase with
  | some t, _ => m.stepTransfer t
  | none, .fetch => let (opcode, m) := m.fetch; m.start opcode
  | none, phase => m.movePhase phase

/-- Resets the processor. It loads the program counter from its vector and then stalls. -/
def resetCpu (m : Machine) (powerCycle : Bool) : Machine :=
  match m with
  | ⟨cpu, bus⟩ =>
    let registers := Cpu.resetRegisters cpu.registers powerCycle
    let m : Machine :=
      ⟨{ registers, phase := .stall Cpu.entryCycles }, { bus with lines := bus.lines.clear }⟩
    let (pc, m) := m.readWord Cpu.resetVector
    m.jump pc

end Famicom.Machine
