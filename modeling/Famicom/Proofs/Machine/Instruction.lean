import Famicom.Proofs.Machine.Completion

/-!
# Instructions in one go

The processor spreads an instruction over several cycles: the operand is resolved in the first one,
which also fixes how many there are, and the effect comes in the last. `Machine.runInstruction` does
the same in one go. It resolves the operand, applies the effect, and enters the interrupt that is
asked for.

## What is compared

Between the first and the last cycle the machine only waits, so after `j` cycles it is the resolved
machine with `j` cycles counted (`cycleMany_of_decode`), and the effect in the last cycle meets the
registers and the bus that the first cycle left. Whether a branch is taken is looked at twice, once
for the count of cycles and once for the effect; both looks see the same flags.

The main statement, `cycleMany_eq_runInstruction`, says that the two agree, what can be seen on the
way, and after how many cycles the next instruction starts. One class of opcodes is different: they
jam the processor, which then looks at no interrupt line and reaches no further instruction.
-/

namespace Famicom

namespace Machine

/-! ## The instruction at the program counter -/

/-- An instruction that has been fetched and resolved. -/
structure Decoded where
  opcode : UInt8
  instruction : Instruction
  /-- The machine with the program counter past the operand bytes. -/
  machine : Machine

namespace Decoded

variable (d : Decoded)

/-- The instruction is a branch whose condition holds. -/
def branches : Bool :=
  match d.instruction.operation with
  | .branch op => op.isTaken d.machine.registers.p
  | _ => false

/-- The cycles of the instruction: those of its opcode, one more where indexing has crossed a page
and the opcode pays for it, and one more for a branch that is taken, or two if it leaves the
page. -/
def cycles : Nat :=
  Opcode.cycles d.opcode +
    (if d.instruction.pageCrossed && Opcode.paysForPage d.opcode then 1 else 0) +
    (if d.branches then if d.instruction.pageCrossed then 2 else 1 else 0)

/-- The resolved machine after `j` cycles in all, before the last one. -/
def waiting (j : Nat) : Machine :=
  ⟨{ d.machine.cpu with
      phase := .execute d.instruction (d.cycles - j)
      cycles := d.machine.cpu.cycles + j }, d.machine.bus⟩

/-- The resolved machine in the last cycle, with the cycles of the instruction counted. -/
def counted : Machine :=
  ⟨{ d.machine.cpu with cycles := d.machine.cpu.cycles + d.cycles }, d.machine.bus⟩

/-- The effect of the instruction on registers and bus. -/
def effect : Machine := d.counted.execute d.instruction

/-- The maskable interrupt is left out after this instruction. It goes by the mask from before the
instruction, or by the restored one after a return from an interrupt. -/
def masksIrq : Bool :=
  match d.instruction.operation with
  | .rti => d.effect.registers.p.interruptDisable
  | _ => d.machine.registers.p.interruptDisable

/-- The interrupt that is entered after the effect, if any. -/
def interrupt? : Option Interrupt :=
  if d.instruction.operation = .jam then none
  else if d.effect.bus.lines.nmi then some .nmi
  else if d.effect.bus.lines.irq && !d.masksIrq then some .irq
  else none

end Decoded

/-- The instruction at the program counter. -/
def decode (m : Machine) : Decoded :=
  let opcode := m.fetch.1
  let mode := Mode.ofOpcode opcode
  let resolved := m.fetch.2.resolve mode
  ⟨opcode, ⟨Opcode.operation opcode, mode, resolved.1.address, resolved.1.pageCrossed⟩, resolved.2⟩

/-- Executes the instruction at the program counter in one go. -/
def runInstruction (m : Machine) : Machine :=
  let d := m.decode
  let done := d.effect.beginTransfer
  if d.instruction.operation = .jam then done.setPhase .jammed
  else
    match d.interrupt? with
    | some interrupt => done.enter interrupt
    | none => done

/-- Cycles of the transfer that an instruction has asked for: one to wait for if the count of cycles
is odd, and those of the transfer itself. -/
def Decoded.transferCycles (d : Decoded) : Nat :=
  if d.effect.bus.transferPage.isSome then d.effect.cpu.cycles % 2 + 512 else 0

/-- Cycles of the entry of the interrupt that follows an instruction. -/
def Decoded.entryCycles (d : Decoded) : Nat := if d.interrupt?.isSome then 7 else 0

/-! ## Counting -/

theorem cycles_eq (d : Decoded) :
    d.instruction.cycles d.opcode d.machine.registers.p = d.cycles := by
  unfold Instruction.cycles Decoded.cycles Decoded.branches
  cases d.instruction.pageCrossed <;> cases Opcode.paysForPage d.opcode <;>
    cases d.instruction.operation <;> simp

theorem two_le_opcodeCycles (opcode : UInt8) : 2 ≤ Opcode.cycles opcode := by
  have h : ∀ row column : Fin 16, 2 ≤ baseCycles[row][column] := by decide
  unfold Opcode.cycles
  exact h (Opcode.row opcode) (Opcode.column opcode)

theorem two_le_cycles (d : Decoded) : 2 ≤ d.cycles := by
  have h := two_le_opcodeCycles d.opcode
  unfold Decoded.cycles
  omega

variable {m : Machine}

/-! ## The first cycle -/

theorem machine_decode (m : Machine) :
    m.decode.machine = (m.fetch.2.resolve (Mode.ofOpcode m.fetch.1)).2 := rfl

theorem mode_decode (m : Machine) : m.decode.instruction.mode = Mode.ofOpcode m.fetch.1 := rfl

theorem registers_fetch (m : Machine) :
    m.fetch.2.registers = { m.registers with pc := m.registers.pc + 1 } := rfl

theorem reads_decode (m : Machine) : Reads m m.decode.machine := by
  rw [machine_decode]
  exact m.reads_fetch.trans (reads_resolve _ _)

theorem registers_decode (m : Machine) :
    m.decode.machine.registers =
      { m.registers with
        pc := m.registers.pc + 1 + UInt16.ofNat m.decode.instruction.mode.operandLength } := by
  rw [machine_decode, mode_decode, registers_resolve, registers_fetch]

theorem fetch_countCycle (m : Machine) :
    m.countCycle.fetch = (m.fetch.1, m.fetch.2.countCycle) := rfl

theorem resolve_countCycle (m : Machine) (mode : Mode) :
    m.countCycle.resolve mode = ((m.resolve mode).1, (m.resolve mode).2.countCycle) := by
  cases mode <;> rfl

theorem start_eq (m : Machine) (opcode : UInt8) :
    m.start opcode =
      let mode := Mode.ofOpcode opcode
      let resolved := m.resolve mode
      let i : Instruction :=
        ⟨Opcode.operation opcode, mode, resolved.1.address, resolved.1.pageCrossed⟩
      resolved.2.setPhase (.execute i (i.cycles opcode resolved.2.registers.p - 1)) := by
  rw [start]

/-- The first cycle resolves the instruction and fixes its length. -/
theorem cycle_of_atBoundary (h : m.cpu.atBoundary = true) : m.cycle = m.decode.waiting 1 := by
  obtain ⟨hphase, htransfer⟩ := Cpu.atBoundary_iff.mp h
  rw [cycle_of_fetch htransfer hphase]
  rw [fetch_countCycle, start_eq]
  dsimp only
  rw [resolve_countCycle, Decoded.waiting, ← cycles_eq]
  rfl

/-! ## The cycles in between and the last one -/

theorem transfer_decode (h : m.cpu.atBoundary = true) :
    m.decode.machine.cpu.transfer = none :=
  m.reads_decode.transfer.trans (Cpu.atBoundary_iff.mp h).2

theorem phase_decode (h : m.cpu.atBoundary = true) : m.decode.machine.cpu.phase = .fetch :=
  m.reads_decode.phase.trans (Cpu.atBoundary_iff.mp h).1

theorem transfer_waiting (d : Decoded) (j : Nat) :
    (d.waiting j).cpu.transfer = d.machine.cpu.transfer := rfl

theorem cycle_waiting {d : Decoded} (htransfer : d.machine.cpu.transfer = none) {j : Nat}
    (hj : j + 1 < d.cycles) : (d.waiting j).cycle = d.waiting (j + 1) := by
  have hphase : (d.waiting j).cpu.phase = .execute d.instruction (d.cycles - j) := rfl
  rw [cycle_of_waiting ((transfer_waiting d j).trans htransfer) hphase (by omega)]
  rfl

theorem cycleMany_of_decode (h : m.cpu.atBoundary = true) {j : Nat} (hpos : 0 < j)
    (hj : j < m.decode.cycles) : m.cycleMany j = m.decode.waiting j := by
  -- the induction starts with the first cycle, since nothing is resolved before it
  induction j with
  | zero => exact absurd hpos (Nat.lt_irrefl 0)
  | succ j ih =>
    cases j with
    | zero => exact cycle_of_atBoundary h
    | succ j =>
      rw [cycleMany_succ', ih (Nat.succ_pos j) (by omega), cycle_waiting (transfer_decode h) hj]

theorem waiting_countCycle_setPhase {d : Decoded} (hphase : d.machine.cpu.phase = .fetch) :
    (d.waiting (d.cycles - 1)).countCycle.setPhase .fetch = d.counted := by
  have hcycles : d.machine.cpu.cycles + (d.cycles - 1) + 1 = d.machine.cpu.cycles + d.cycles := by
    have := two_le_cycles d
    omega
  unfold Decoded.counted Decoded.waiting
  dsimp only [countCycle, setPhase]
  rw [hcycles, ← hphase]

theorem isMasked_eq (d : Decoded) :
    d.instruction.operation.isMasked d.machine.registers.p d.effect.registers.p = d.masksIrq := by
  unfold Operation.isMasked Decoded.masksIrq
  cases d.instruction.operation <;> rfl

theorem accepted?_effect {d : Decoded} (h : d.instruction.operation ≠ .jam) :
    d.effect.bus.lines.accepted? d.masksIrq = d.interrupt? := by
  rw [Decoded.interrupt?, if_neg h, Lines.accepted?]

theorem settle_waiting {d : Decoded} (hphase : d.machine.cpu.phase = .fetch) :
    (d.waiting (d.cycles - 1)).countCycle.settle d.instruction = d.effect.beginTransfer := by
  rw [settle, waiting_countCycle_setPhase hphase, Decoded.effect]

/-- The last cycle has the effect and then looks at the interrupt lines, unless it jams. -/
theorem complete_waiting {d : Decoded} (hphase : d.machine.cpu.phase = .fetch) :
    (d.waiting (d.cycles - 1)).countCycle.complete d.instruction =
      if d.instruction.operation = .jam then d.effect.beginTransfer.setPhase .jammed
      else
        match d.interrupt? with
        | some interrupt => d.effect.beginTransfer.enter interrupt
        | none => d.effect.beginTransfer := by
  have hbefore : (d.waiting (d.cycles - 1)).countCycle.registers.p = d.machine.registers.p := rfl
  rw [complete_eq, settle_waiting hphase, hbefore, registers_beginTransfer, isMasked_eq]
  by_cases hjam : d.instruction.operation = .jam
  · rw [if_pos hjam, if_pos hjam]
  · rw [if_neg hjam, if_neg hjam, poll, bus_beginTransfer]
    exact accepted?_effect hjam ▸ rfl

/-- Spread over its cycles or in one go, the instruction leaves the same machine. -/
theorem cycleMany_cycles (h : m.cpu.atBoundary = true) :
    m.cycleMany m.decode.cycles = m.runInstruction := by
  have htwo := two_le_cycles m.decode
  obtain ⟨n, hn⟩ : ∃ n, m.decode.cycles = n + 1 := ⟨m.decode.cycles - 1, by omega⟩
  rw [hn, cycleMany_succ', cycleMany_of_decode h (by omega) (by omega)]
  have hlast : (m.decode.waiting n).cpu.phase = .execute m.decode.instruction 1 := by
    change Phase.execute _ _ = _
    rw [show m.decode.cycles - n = 1 by omega]
  rw [cycle_of_completing ((transfer_waiting _ _).trans (transfer_decode h)) hlast
    (Nat.le_refl 1), show n = m.decode.cycles - 1 by omega, complete_waiting (phase_decode h),
    runInstruction]

/-! ## Until the next instruction -/

theorem phase_effect (h : m.cpu.atBoundary = true) : m.decode.effect.cpu.phase = .fetch :=
  (accesses_execute _ _).phase.trans (phase_decode h)

theorem transfer_effect (h : m.cpu.atBoundary = true) :
    m.decode.effect.cpu.transfer = none :=
  (accesses_execute _ _).transfer.trans (transfer_decode h)

theorem cycles_effect (m : Machine) :
    m.decode.effect.cpu.cycles = m.cpu.cycles + m.decode.cycles := by
  rw [Decoded.effect, (accesses_execute _ _).cycles, ← m.reads_decode.cycles]
  rfl

theorem cycles_runInstruction (m : Machine) :
    m.runInstruction.cpu.cycles = m.cpu.cycles + m.decode.cycles := by
  have hdone : m.decode.effect.beginTransfer.cpu.cycles = m.cpu.cycles + m.decode.cycles :=
    (cycles_beginTransfer _).trans m.cycles_effect
  unfold runInstruction
  dsimp only
  split
  · exact hdone
  · split
    · rw [cycles_enter, hdone]
    · exact hdone

theorem transfer_runInstruction (h : m.cpu.atBoundary = true) :
    m.runInstruction.cpu.transfer =
      m.decode.effect.bus.transferPage.map
        fun page ↦ { page, idle := m.decode.effect.cpu.cycles % 2 } := by
  have hdone := transfer_beginTransfer (transfer_effect h)
  unfold runInstruction
  dsimp only
  split
  · exact hdone
  · split
    · rw [transfer_enter, hdone]
    · exact hdone

theorem phase_runInstruction (h : m.cpu.atBoundary = true)
    (hjam : m.decode.instruction.operation ≠ .jam) :
    m.runInstruction.cpu.phase = if m.decode.interrupt?.isSome then .enter 7 else .fetch := by
  unfold runInstruction
  dsimp only
  rw [if_neg hjam]
  cases m.decode.interrupt? with
  | some interrupt => exact phase_enter _ _
  | none =>
    exact (phase_beginTransfer _).trans (phase_effect h)

/-- With no transfer, the phase after an instruction leads to the next boundary. -/
theorem reachesBoundaryIn_entryCycles {n : Machine} {d : Decoded}
    (htransfer : n.cpu.transfer = none)
    (hphase : n.cpu.phase = if d.interrupt?.isSome then .enter 7 else .fetch) :
    n.ReachesBoundaryIn d.entryCycles := by
  unfold Decoded.entryCycles
  cases hsome : d.interrupt?.isSome with
  | true =>
    rw [hsome, if_pos rfl] at hphase
    exact reachesBoundaryIn_enter htransfer hphase
  | false =>
    rw [hsome, if_neg Bool.false_ne_true] at hphase
    exact reachesBoundaryIn_zero (Cpu.atBoundary_iff.mpr ⟨hphase, htransfer⟩)

theorem reachesBoundaryIn_runInstruction (h : m.cpu.atBoundary = true)
    (hjam : m.decode.instruction.operation ≠ .jam) :
    m.runInstruction.ReachesBoundaryIn (m.decode.transferCycles + m.decode.entryCycles) := by
  have htransfer := transfer_runInstruction h
  have hphase := phase_runInstruction h hjam
  unfold Decoded.transferCycles
  cases hpage : m.decode.effect.bus.transferPage with
  | none =>
    rw [hpage, Option.map_none] at htransfer
    rw [Option.isSome_none, if_neg Bool.false_ne_true, Nat.zero_add]
    exact reachesBoundaryIn_entryCycles htransfer hphase
  | some page =>
    rw [hpage, Option.map_some] at htransfer
    have hstart : 0 < Transfer.steps := by decide
    have hleft (idle : Nat) : ({ page, idle } : Transfer).left = idle + 512 := rfl
    obtain ⟨hend, hsame, -⟩ := cycleMany_of_transfer htransfer hstart
    have hentry := reachesBoundaryIn_entryCycles hend (hsame.trans hphase)
    have hboundary := reachesBoundaryIn_of_transfer htransfer hstart hentry
    rw [hleft] at hboundary
    rw [Option.isSome_some, if_pos rfl]
    exact hboundary

theorem phase_runInstruction_of_jam (hjam : m.decode.instruction.operation = .jam) :
    m.runInstruction.cpu.phase = .jammed := by
  unfold runInstruction
  dsimp only
  rw [if_pos hjam]
  rfl

/-! ## Branches -/

/-- No branch pays for a page on top of what a branch pays. -/
theorem paysForPage_of_branch {opcode : UInt8} {op : BranchOp}
    (h : Opcode.operation opcode = .branch op) : Opcode.paysForPage opcode = false := by
  -- branches are in the first column of the table, and a page is paid for in the others
  have hall : ∀ row column : Fin 16, (operations[row][column]).isBranch = true →
      column = 0 := by decide
  have hcolumn := hall (Opcode.row opcode) (Opcode.column opcode)
    (by rw [← Opcode.operation, h]; rfl)
  unfold Opcode.paysForPage
  dsimp only
  rw [hcolumn]
  split <;> simp

/-- A branch is charged for exactly when it goes to its target. -/
theorem pc_effect_of_branch {op : BranchOp}
    (h : m.decode.instruction.operation = .branch op) :
    m.decode.effect.registers.pc =
      if Opcode.cycles m.decode.opcode < m.decode.cycles then m.decode.instruction.address
      else m.decode.machine.registers.pc := by
  have hpays : Opcode.paysForPage m.decode.opcode = false := paysForPage_of_branch h
  have hbranches : m.decode.branches = op.isTaken m.decode.machine.registers.p := by
    rw [Decoded.branches, h]
  -- the count was fixed in the first cycle, but by the same flags that the effect looks at
  have hcharged : Opcode.cycles m.decode.opcode < m.decode.cycles ↔ m.decode.branches = true := by
    unfold Decoded.cycles
    rw [hpays, Bool.and_false, if_neg Bool.false_ne_true]
    cases m.decode.branches <;> cases m.decode.instruction.pageCrossed <;> simp
  simp only [hcharged, hbranches]
  rw [Decoded.effect, execute, h]
  dsimp only
  change (if op.isTaken m.decode.machine.registers.p then _ else _ : Machine).registers.pc = _
  split <;> rfl

/-! ## The cycles together -/

theorem accesses_decode_effect (m : Machine) : m.bus.AccessesTo m.decode.effect.bus :=
  m.reads_decode.accesses.bus.trans (accesses_execute m.decode.counted _).bus

/-- What every access keeps, and does not depend on the latches between processor and bus, an
instruction keeps. -/
theorem runInstruction_preserves {P : Bus → Prop} (hread : ∀ b addr, P b → P (b.read addr).2)
    (hwrite : ∀ b addr value, P b → P (b.write addr value))
    (hlatch : ∀ (b : Bus) lines transferPage, P b → P { b with lines, transferPage })
    (hm : P m.bus) : P m.runInstruction.bus := by
  have hdone : P m.decode.effect.beginTransfer.bus := by
    rw [bus_beginTransfer]
    exact hlatch _ _ none (m.accesses_decode_effect.preserves hread hwrite hm)
  unfold runInstruction
  dsimp only
  split
  · exact hdone
  · split
    · rw [enter_eq, bus_setPhase]
      exact (accesses_enterInterrupt _ _ _).bus.preserves hread hwrite (hlatch _ _ _ hdone)
    · exact hdone

/-- Neither chip runs during an instruction: the beam and the pace of the samples stand still. -/
theorem chips_cycleMany (h : m.cpu.atBoundary = true) {j : Nat} (hj : j ≤ m.decode.cycles) :
    (m.cycleMany j).bus.ppu.beam = m.bus.ppu.beam ∧
      (m.cycleMany j).bus.apu.pacer = m.bus.apu.pacer := by
  let P (b : Bus) : Prop := b.ppu.beam = m.bus.ppu.beam ∧ b.apu.pacer = m.bus.apu.pacer
  have hread (b : Bus) (addr : UInt16) (hb : P b) : P (b.read addr).2 :=
    ⟨(b.beam_read addr).trans hb.1, (b.pacer_read addr).trans hb.2⟩
  have hwrite (b : Bus) (addr : UInt16) (value : UInt8) (hb : P b) : P (b.write addr value) :=
    ⟨(b.beam_write addr value).trans hb.1, (b.pacer_write addr value).trans hb.2⟩
  rcases Nat.eq_zero_or_pos j with rfl | hpos
  · exact ⟨rfl, rfl⟩
  · rcases Nat.lt_or_eq_of_le hj with hlt | rfl
    · rw [cycleMany_of_decode h hpos hlt]
      exact m.reads_decode.bus.preserves hread ⟨rfl, rfl⟩
    · rw [cycleMany_cycles h]
      exact runInstruction_preserves hread hwrite (fun _ _ _ hb ↦ hb) ⟨rfl, rfl⟩

theorem not_atBoundary_waiting (d : Decoded) (j : Nat) :
    (d.waiting j).cpu.atBoundary = false := by
  rw [Bool.eq_false_iff, ne_eq, Cpu.atBoundary_iff]
  exact fun h ↦ Phase.noConfusion h.1

/-- The cycles of an instruction and the instruction in one go agree. On the way to the last cycle
only reads have happened and no register but the program counter has moved. Neither chip runs. After
a transfer and the entry of an interrupt, where there are any, the processor is at the next
instruction; only a jammed one never is. -/
theorem cycleMany_eq_runInstruction (h : m.cpu.atBoundary = true) :
    (∀ j, 0 < j → j < m.decode.cycles →
      (m.cycleMany j).registers =
          { m.registers with
            pc := m.registers.pc + 1 +
              UInt16.ofNat m.decode.instruction.mode.operandLength } ∧
        m.bus.ReadsTo (m.cycleMany j).bus ∧ (m.cycleMany j).cpu.atBoundary = false) ∧
      m.cycleMany m.decode.cycles = m.runInstruction ∧
      m.runInstruction.cpu.cycles = m.cpu.cycles + m.decode.cycles ∧
      (∀ op, m.decode.instruction.operation = .branch op →
        m.decode.effect.registers.pc =
          if Opcode.cycles m.decode.opcode < m.decode.cycles then m.decode.instruction.address
          else m.decode.machine.registers.pc) ∧
      (∀ j ≤ m.decode.cycles,
        (m.cycleMany j).bus.ppu.beam = m.bus.ppu.beam ∧
          (m.cycleMany j).bus.apu.pacer = m.bus.apu.pacer) ∧
      (m.decode.instruction.operation ≠ .jam →
        m.runInstruction.ReachesBoundaryIn (m.decode.transferCycles + m.decode.entryCycles)) ∧
      (m.decode.instruction.operation = .jam →
        ∀ j, (m.runInstruction.cycleMany j).cpu.atBoundary = false) := by
  refine ⟨fun j hpos hj ↦ ?_, cycleMany_cycles h, m.cycles_runInstruction,
    fun op hop ↦ pc_effect_of_branch hop, fun j hj ↦ chips_cycleMany h hj,
    fun hjam ↦ reachesBoundaryIn_runInstruction h hjam,
    fun hjam j ↦ not_atBoundary_of_jammed (phase_runInstruction_of_jam hjam) j⟩
  rw [cycleMany_of_decode h hpos hj]
  exact ⟨m.registers_decode, m.reads_decode.bus, not_atBoundary_waiting _ _⟩

/-- A console without a cartridge. Its memory starts with a branch back to the end of the address
space, and the unmaskable interrupt is asked for. -/
def branching : Machine :=
  ⟨{}, { (Bus.powerOn .ntsc .empty).writeAll [(0, 0xd0), (1, 0xfd)] with lines := { nmi := true } }⟩

/-- The branch is taken to another page, which costs two cycles more, and the entry of the interrupt
takes seven after it. -/
theorem cycleMany_branching :
    branching.cpu.atBoundary = true ∧ branching.decode.cycles = 4 ∧
      branching.decode.instruction.address = 0xffff ∧
      branching.cycleMany 4 = branching.runInstruction ∧
      branching.runInstruction.ReachesBoundaryIn 7 := by
  have hboundary : branching.cpu.atBoundary = true := rfl
  have hcycles : branching.decode.cycles = 4 := by decide
  have hwait : branching.decode.transferCycles + branching.decode.entryCycles = 7 := by decide
  have hjam : branching.decode.instruction.operation ≠ .jam := by decide
  obtain ⟨-, hrun, -, -, -, hnext, -⟩ := cycleMany_eq_runInstruction hboundary
  rw [hcycles] at hrun
  rw [hwait] at hnext
  exact ⟨hboundary, hcycles, by decide, hrun, hnext hjam⟩

/-- A console without a cartridge, with one opcode at the start of its memory. -/
def ofOpcode (opcode : UInt8) : Machine := (powerOn .ntsc .empty).write 0 opcode

/-- No instruction follows one that jams the processor, not even with nothing to wait for. -/
theorem not_reachesBoundaryIn_ofOpcode_jam :
    (ofOpcode 0x02).cpu.atBoundary = true ∧ (ofOpcode 0x02).decode.cycles = 2 ∧
      (ofOpcode 0x02).decode.transferCycles + (ofOpcode 0x02).decode.entryCycles = 0 ∧
      ∀ n, ¬((ofOpcode 0x02).cycleMany 2).ReachesBoundaryIn n := by
  have hboundary : (ofOpcode 0x02).cpu.atBoundary = true := rfl
  have hcycles : (ofOpcode 0x02).decode.cycles = 2 := rfl
  refine ⟨hboundary, hcycles, rfl, fun n hreaches ↦ ?_⟩
  have hjam : (ofOpcode 0x02).decode.instruction.operation = .jam := rfl
  rw [← hcycles, cycleMany_cycles hboundary] at hreaches
  exact Bool.false_ne_true
    ((not_atBoundary_of_jammed (phase_runInstruction_of_jam hjam) n).symm.trans hreaches.1)

end Machine

end Famicom
