import Famicom.Proofs.Bus.Effects
import Famicom.Proofs.Machine.Cycle

/-!
# Completions and entries

An interrupt is entered in one kind of cycle only, the last one of an instruction, after the effect
of that instruction. `Machine.completing?` finds the instruction that a cycle completes,
`Machine.settled` the machine at the look at the interrupt lines, and `Machine.entering?` the
interrupt that the look accepts.

`cycle_cases` lists what a cycle can do to the bus: it reads and writes, or it completes an
instruction and enters no interrupt or one. An entry pushes to memory and reads a vector of the
cartridge, so that it leaves both chips as they are and of the lines takes back only its own
(`bus_enter`).

The last section bounds the time between two completions by a count that every other cycle brings
down, `Machine.wait`.
-/

namespace Famicom

namespace Machine

/-! ## Beginning a transfer -/

theorem beginTransfer_eq (m : Machine) :
    m.beginTransfer =
      ⟨{ m.cpu with
          transfer :=
            match m.bus.transferPage with
            | some page => some { page, idle := m.cpu.cycles % 2 }
            | none => m.cpu.transfer },
        { m.bus with transferPage := none }⟩ := by
  obtain ⟨cpu, bus⟩ := m
  unfold beginTransfer Bus.takeTransfer
  dsimp only
  cases bus.transferPage <;> rfl

theorem phase_beginTransfer (m : Machine) : m.beginTransfer.cpu.phase = m.cpu.phase := by
  rw [beginTransfer_eq]

theorem cycles_beginTransfer (m : Machine) : m.beginTransfer.cpu.cycles = m.cpu.cycles := by
  rw [beginTransfer_eq]

theorem registers_beginTransfer (m : Machine) : m.beginTransfer.registers = m.registers := by
  rw [beginTransfer_eq]
  rfl

theorem transfer_beginTransfer {m : Machine} (h : m.cpu.transfer = none) :
    m.beginTransfer.cpu.transfer =
      m.bus.transferPage.map fun page ↦ { page, idle := m.cpu.cycles % 2 } := by
  rw [beginTransfer_eq]
  dsimp only
  rw [h]
  cases m.bus.transferPage <;> rfl

theorem bus_beginTransfer (m : Machine) :
    m.beginTransfer.bus = { m.bus with transferPage := none } := by
  rw [beginTransfer_eq]

/-! ## Entering an interrupt -/

theorem phase_enter (m : Machine) (interrupt : Interrupt) :
    (m.enter interrupt).cpu.phase = .enter Cpu.entryCycles := by
  rw [enter_eq, phase_setPhase]

theorem transfer_enter (m : Machine) (interrupt : Interrupt) :
    (m.enter interrupt).cpu.transfer = m.cpu.transfer := by
  rw [enter_eq, transfer_setPhase, (accesses_enterInterrupt _ _ _).transfer]
  rfl

theorem cycles_enter (m : Machine) (interrupt : Interrupt) :
    (m.enter interrupt).cpu.cycles = m.cpu.cycles := by
  rw [enter_eq, cycles_setPhase, (accesses_enterInterrupt _ _ _).cycles]
  rfl

theorem region_stackAddress (sp : UInt8) :
    ∃ cell, Region.ofAddress (stackAddress sp) = .ram cell := by
  have hsp := sp.toNat_lt
  have haddr : (stackAddress sp).toNat = 0x100 + sp.toNat := toNat_wordOf sp 1
  unfold Region.ofAddress
  dsimp only
  rw [if_pos (by omega)]
  exact ⟨_, rfl⟩

theorem bus_push (m : Machine) (value : UInt8) :
    ∃ ram, (m.push value).bus = { m.bus with ram } := by
  obtain ⟨cell, hcell⟩ := region_stackAddress m.registers.sp
  change ∃ ram, m.bus.write (stackAddress m.registers.sp) value = { m.bus with ram }
  unfold Bus.write
  rw [hcell]
  exact ⟨_, rfl⟩

theorem bus_suspended (m : Machine) (breakMark : Bool) :
    ∃ ram, (m.suspended breakMark).bus = { m.bus with ram } := by
  obtain ⟨_, hhigh⟩ := m.bus_push (highByte m.registers.pc)
  obtain ⟨_, hlow⟩ := (m.push (highByte m.registers.pc)).bus_push (lowByte m.registers.pc)
  obtain ⟨ram, hstatus⟩ :=
    (m.pushWord m.registers.pc).bus_push (m.registers.p.pushed breakMark)
  refine ⟨ram, hstatus.trans ?_⟩
  rw [pushWord, hlow, hhigh]

theorem bus_read_cartridge (b : Bus) {addr : UInt16} (h : Region.ofAddress addr = .cartridge addr) :
    ∃ fault, (b.read addr).2 = { b with fault } := by
  unfold Bus.read
  rw [h]
  dsimp only
  split
  · exact ⟨_, rfl⟩
  · exact ⟨_, rfl⟩

/-- Where the cartridge answers, a read of the processor gives its byte and changes nothing. -/
theorem bus_read_of_readCpu? {b : Bus} {addr : UInt16} {value : UInt8}
    (hregion : Region.ofAddress addr = .cartridge addr)
    (hvalue : b.slot.readCpu? addr = some value) : b.read addr = (value, b) := by
  rw [Bus.read, hregion]
  dsimp only
  rw [hvalue]

/-- Fetching from the cartridge. -/
theorem fetch_of_readCpu? {m : Machine} {value : UInt8}
    (hregion : Region.ofAddress m.registers.pc = .cartridge m.registers.pc)
    (hvalue : m.bus.slot.readCpu? m.registers.pc = some value) :
    m.fetch = (value, m.jump (m.registers.pc + 1)) := by
  obtain ⟨cpu, bus⟩ := m
  have hread := bus_read_of_readCpu? hregion hvalue
  simp only [fetch, read, hread]

/-- A power cycle, with the reset vector in the cartridge. -/
theorem resetCpu_of_readCpu? {m : Machine} {low high : UInt8}
    (hlow : m.bus.slot.readCpu? Cpu.resetVector = some low)
    (hhigh : m.bus.slot.readCpu? (Cpu.resetVector + 1) = some high) :
    m.resetCpu true =
      ⟨{ registers := { pc := wordOf low high }, phase := .stall Cpu.entryCycles },
        { m.bus with lines := m.bus.lines.clear }⟩ := by
  obtain ⟨cpu, bus⟩ := m
  have hfirst := bus_read_of_readCpu? (b := { bus with lines := bus.lines.clear }) rfl hlow
  have hsecond := bus_read_of_readCpu? (b := { bus with lines := bus.lines.clear }) rfl hhigh
  simp only [resetCpu, readWord, Bus.readWord, hfirst, hsecond]
  rfl

/-- Entering an interrupt takes back its line and changes memory. It leaves the chips as they
are. -/
theorem bus_enter (m : Machine) (interrupt : Interrupt) :
    ∃ ram fault,
      (m.enter interrupt).bus =
        { m.bus with lines := m.bus.lines.acknowledge interrupt, ram, fault } := by
  -- the vectors lie in the cartridge, where a read can leave no more than a fault behind
  have hregion : Region.ofAddress (Cpu.vector interrupt) = .cartridge (Cpu.vector interrupt) ∧
      Region.ofAddress (Cpu.vector interrupt + 1) = .cartridge (Cpu.vector interrupt + 1) := by
    cases interrupt <;> exact ⟨rfl, rfl⟩
  obtain ⟨ram, hsuspended⟩ := (m.acknowledging interrupt).bus_suspended false
  obtain ⟨_, hlow⟩ :=
    bus_read_cartridge ((m.acknowledging interrupt).suspended false).bus hregion.1
  obtain ⟨fault, hhigh⟩ :=
    bus_read_cartridge (((m.acknowledging interrupt).suspended false).bus.read
      (Cpu.vector interrupt)).2 hregion.2
  refine ⟨ram, fault, ?_⟩
  rw [enter_eq, enterInterrupt_eq, bus_setPhase]
  refine hhigh.trans ?_
  rw [hlow, hsuspended]
  rfl

/-! ## Completions -/

/-- The instruction that the next cycle completes. -/
def completing? (m : Machine) : Option Instruction :=
  match m.cpu.transfer, m.cpu.phase with
  | none, .execute i left => if left ≤ 1 then some i else none
  | _, _ => none

/-- The machine at the look at the interrupt lines, where an instruction completes: its effect has
come and the transfer it has asked for has begun. -/
def settled (m : Machine) (i : Instruction) : Machine := m.countCycle.settle i

/-- The look leaves the maskable interrupt out. -/
def masks (m : Machine) (i : Instruction) : Bool :=
  i.operation.isMasked m.registers.p (m.settled i).registers.p

/-- The interrupt that the next cycle enters. -/
def entering? (m : Machine) : Option Interrupt :=
  match m.completing? with
  | some i => if i.operation = .jam then none else (m.settled i).bus.lines.accepted? (m.masks i)
  | none => none

variable {m : Machine} {i : Instruction}

theorem completing?_eq_some :
    m.completing? = some i ↔
      m.cpu.transfer = none ∧ ∃ left, m.cpu.phase = .execute i left ∧ left ≤ 1 := by
  unfold completing?
  constructor
  · intro h
    split at h
    · next i' left htransfer hphase =>
      split at h
      · next hleft => exact ⟨htransfer, left, by rw [hphase, Option.some.inj h], hleft⟩
      · exact absurd h (Option.some_ne_none _).symm
    · exact absurd h (Option.some_ne_none _).symm
  · rintro ⟨htransfer, left, hphase, hleft⟩
    rw [htransfer, hphase]
    exact if_pos hleft

theorem cycle_of_completing? (h : m.completing? = some i) : m.cycle = m.countCycle.complete i := by
  obtain ⟨htransfer, left, hphase, hleft⟩ := completing?_eq_some.mp h
  exact cycle_of_completing htransfer hphase hleft

theorem entering?_of_completing (h : m.completing? = some i) (hjam : i.operation ≠ .jam) :
    m.entering? = (m.settled i).bus.lines.accepted? (m.masks i) := by
  unfold entering?
  rw [h]
  exact if_neg hjam

/-- The operation of a completed instruction decides between jamming and looking at the lines. -/
theorem complete_eq (m : Machine) (i : Instruction) :
    m.complete i =
      if i.operation = .jam then (m.settle i).setPhase .jammed
      else
        (m.settle i).poll (i.operation.isMasked m.registers.p (m.settle i).registers.p) := by
  unfold complete
  dsimp only
  cases hop : i.operation <;> rfl

/-- The last cycle of an instruction enters the interrupt that it looks for, if any. -/
theorem cycle_of_entering (h : m.completing? = some i) (hjam : i.operation ≠ .jam) :
    m.cycle =
      match m.entering? with
      | some interrupt => (m.settled i).enter interrupt
      | none => m.settled i := by
  rw [cycle_of_completing? h, complete_eq, if_neg hjam, poll, entering?_of_completing h hjam]
  rfl

theorem cycle_of_enters {interrupt : Interrupt} (h : m.completing? = some i)
    (henters : m.entering? = some interrupt) : m.cycle = (m.settled i).enter interrupt := by
  have hjam : i.operation ≠ .jam := by
    intro hop
    rw [entering?, h] at henters
    exact Option.some_ne_none interrupt (henters.symm.trans (if_pos hop))
  rw [cycle_of_entering h hjam, henters]

theorem cycle_of_jamming (h : m.completing? = some i) (hjam : i.operation = .jam) :
    m.cycle = (m.settled i).setPhase .jammed := by
  rw [cycle_of_completing? h, complete_eq, if_pos hjam]
  rfl

/-! ## The cycle count -/

theorem cycles_settle (m : Machine) (i : Instruction) :
    (m.settle i).cpu.cycles = m.cpu.cycles := by
  rw [settle, cycles_beginTransfer, (accesses_execute _ i).cycles, cycles_setPhase]

theorem cycles_poll (m : Machine) (masked : Bool) : (m.poll masked).cpu.cycles = m.cpu.cycles := by
  rw [poll]
  cases m.bus.lines.accepted? masked with
  | none => rfl
  | some interrupt => exact m.cycles_enter interrupt

theorem cycles_complete (m : Machine) (i : Instruction) :
    (m.complete i).cpu.cycles = m.cpu.cycles := by
  rw [complete_eq]
  split
  · exact m.cycles_settle i
  · rw [cycles_poll, cycles_settle]

/-- Every cycle counts, also those of a transfer, of a reset and of a jammed processor. -/
theorem cycles_cycle (m : Machine) : m.cycle.cpu.cycles = m.cpu.cycles + 1 := by
  cases htransfer : m.cpu.transfer with
  | some t => rw [cycle_of_transfer htransfer, cycles_stepTransfer]; rfl
  | none =>
    cases hphase : m.cpu.phase with
    | fetch =>
      rw [cycle_of_fetch htransfer hphase]
      exact (reads_resolve _ _).cycles.trans (reads_fetch _).cycles
    | execute i left =>
      by_cases hleft : 1 < left
      · rw [cycle_of_waiting htransfer hphase hleft]
        rfl
      · rw [cycle_of_completing htransfer hphase (Nat.le_of_not_lt hleft), cycles_complete]
        rfl
    | enter left => rw [cycle_of_enter htransfer hphase]; rfl
    | stall left => rw [cycle_of_stall htransfer hphase]; rfl
    | jammed => rw [cycle_of_jammed htransfer hphase]; rfl

/-! ## What a cycle does to the bus -/

/-- The effect of an instruction, and no transfer waiting any more. -/
theorem bus_settled (m : Machine) (i : Instruction) :
    ∃ b, m.bus.AccessesTo b ∧ (m.settled i).bus = { b with transferPage := none } :=
  ⟨_, (accesses_execute (m.countCycle.setPhase .fetch) i).bus, bus_beginTransfer _⟩

/-- Some reads, or a write to the one register that a transfer writes to. -/
def Idles (b c : Bus) : Prop := b.ReadsTo c ∨ ∃ value, c = b.write Transfer.target value

theorem Idles.accesses {b c : Bus} (h : Idles b c) : b.AccessesTo c := by
  rcases h with h | ⟨value, rfl⟩
  · exact h.accessesTo
  · exact .write b _ value

theorem idles_stepTransfer (m : Machine) (t : Transfer) : Idles m.bus (m.stepTransfer t).bus := by
  rw [stepTransfer_eq]
  cases t.action with
  | wait => exact Or.inl (.refl _)
  | read addr => exact Or.inl (.single _ addr)
  | write value => exact Or.inr ⟨value, rfl⟩

theorem reads_start (m : Machine) (opcode : UInt8) : m.bus.ReadsTo (m.start opcode).bus := by
  unfold start
  exact (reads_resolve m (Mode.ofOpcode opcode)).bus

theorem one_lt_of_waiting {left : Nat} (h : m.completing? = none)
    (htransfer : m.cpu.transfer = none) (hphase : m.cpu.phase = .execute i left) : 1 < left := by
  refine Nat.lt_of_not_le fun hleft ↦ ?_
  rw [completing?_eq_some.mpr ⟨htransfer, left, hphase, hleft⟩] at h
  exact Option.some_ne_none _ h

/-- A cycle that completes no instruction reads, or it writes for a transfer. -/
theorem idles_cycle (h : m.completing? = none) : Idles m.bus m.cycle.bus := by
  cases htransfer : m.cpu.transfer with
  | some t =>
    rw [cycle_of_transfer htransfer]
    exact m.countCycle.idles_stepTransfer t
  | none =>
    cases hphase : m.cpu.phase with
    | fetch =>
      rw [cycle_of_fetch htransfer hphase]
      exact Or.inl (m.countCycle.reads_fetch.bus.trans (reads_start _ _))
    | execute i left =>
      rw [cycle_of_waiting htransfer hphase (one_lt_of_waiting h htransfer hphase)]
      exact Or.inl (.refl _)
    | enter left => rw [cycle_of_enter htransfer hphase]; exact Or.inl (.refl _)
    | stall left => rw [cycle_of_stall htransfer hphase]; exact Or.inl (.refl _)
    | jammed => rw [cycle_of_jammed htransfer hphase]; exact Or.inl (.refl _)

/-- A cycle reads or transfers, or it completes an instruction. Then it jams, or it looks at the
lines and enters the interrupt that it accepts. -/
theorem cycle_cases (m : Machine) :
    (m.completing? = none ∧ m.entering? = none ∧ Idles m.bus m.cycle.bus) ∨
      ∃ i, m.completing? = some i ∧
        ((i.operation = .jam ∧ m.entering? = none ∧ m.cycle = (m.settled i).setPhase .jammed) ∨
          (i.operation ≠ .jam ∧
            m.entering? = (m.settled i).bus.lines.accepted? (m.masks i) ∧
            m.cycle =
              match m.entering? with
              | some interrupt => (m.settled i).enter interrupt
              | none => m.settled i)) := by
  cases h : m.completing? with
  | none => exact Or.inl ⟨rfl, by rw [entering?, h], idles_cycle h⟩
  | some i =>
    refine Or.inr ⟨i, rfl, ?_⟩
    by_cases hjam : i.operation = .jam
    · exact Or.inl ⟨hjam, by rw [entering?, h]; exact if_pos hjam, cycle_of_jamming h hjam⟩
    · exact Or.inr ⟨hjam, entering?_of_completing h hjam, cycle_of_entering h hjam⟩

end Machine

/-! ## The time until a completion -/

/-- The cycles after which a phase has completed an instruction, at most. No instruction takes more
than eleven. -/
def Phase.wait : Phase → Nat
  | .fetch => 11
  | .execute _ left => left
  | .enter left | .stall left => left + 12
  | .jammed => 0

theorem Instruction.cycles_le (i : Instruction) (opcode : UInt8) (p : Status) :
    i.cycles opcode p ≤ 11 := by
  have hbase : ∀ row column : Fin 16, baseCycles[row][column] ≤ 8 := by decide
  have hopcode : Opcode.cycles opcode ≤ 8 := by
    unfold Opcode.cycles
    exact hbase (Opcode.row opcode) (Opcode.column opcode)
  have hpage := Bool.toNat_le i.pageCrossed
  unfold Instruction.cycles
  dsimp only
  cases i.operation with
  | branch op => dsimp only; split <;> split <;> omega
  | _ => dsimp only; split <;> omega

namespace Machine

variable {m : Machine} {i : Instruction}

/-- The cycles until the next completion, at most: those of a transfer and those of the phase. -/
def wait (m : Machine) : Nat := m.cpu.transfer.elim 0 Transfer.left + m.cpu.phase.wait

/-- A transfer with its cycle of waiting, an entry or a reset, and an instruction. -/
def longestWait : Nat := 513 + 7 + 12

/-- The processor completes an instruction within the longest wait, or it is jammed. -/
structure IsPrompt (m : Machine) : Prop where
  step_lt : ∀ t, m.cpu.transfer = some t → t.step < Transfer.steps
  wait_le : m.wait ≤ longestWait

theorem wait_of_none (h : m.cpu.transfer = none) : m.wait = m.cpu.phase.wait := by
  rw [wait, h, Option.elim_none, Nat.zero_add]

theorem phase_start (m : Machine) (opcode : UInt8) :
    ∃ i left, (m.start opcode).cpu.phase = .execute i left ∧ left ≤ 10 := by
  refine ⟨_, _, rfl, ?_⟩
  exact Nat.sub_le_of_le_add (Instruction.cycles_le _ _ _)

theorem transfer_start (m : Machine) (opcode : UInt8) :
    (m.start opcode).cpu.transfer = m.cpu.transfer :=
  (reads_resolve m (Mode.ofOpcode opcode)).transfer

theorem wait_cycle_of_transfer {t : Transfer} (h : m.cpu.transfer = some t)
    (hstep : t.step < Transfer.steps) :
    (∀ u, m.cycle.cpu.transfer = some u → u.step < Transfer.steps) ∧
      m.cycle.wait + 1 = m.wait := by
  have hwait : m.wait = t.left + m.cpu.phase.wait := by rw [wait, h, Option.elim_some]
  have hphase : m.cycle.cpu.phase = m.cpu.phase := by
    rw [cycle_of_transfer h, phase_stepTransfer]
    rfl
  rcases transfer_stepTransfer m.countCycle hstep with ⟨hone, hnone⟩ | ⟨u, hu, hustep, huleft⟩
  · rw [← cycle_of_transfer h] at hnone
    refine ⟨fun u hu ↦ absurd (hnone.symm.trans hu) (Option.some_ne_none u).symm, ?_⟩
    rw [wait_of_none hnone, hphase, hwait]
    omega
  · rw [← cycle_of_transfer h] at hu
    refine ⟨fun v hv ↦ ?_, ?_⟩
    · rw [← Option.some.inj (hu.symm.trans hv)]
      exact hustep
    · rw [wait, hu, hphase, Option.elim_some, hwait]
      omega

theorem wait_cycle_of_phase (htransfer : m.cpu.transfer = none) (h : m.completing? = none)
    (hjammed : m.cpu.phase ≠ .jammed) :
    m.cycle.cpu.transfer = none ∧ m.cycle.wait + 1 ≤ m.wait := by
  -- without a transfer the wait is that of the phase, so each phase only has to say its successor
  have hdone : ∀ n : Machine, m.cycle = n → n.cpu.transfer = none →
      n.cpu.phase.wait + 1 ≤ m.cpu.phase.wait →
      m.cycle.cpu.transfer = none ∧ m.cycle.wait + 1 ≤ m.wait := by
    rintro n rfl hnone hless
    rw [wait_of_none hnone, wait_of_none htransfer]
    exact ⟨hnone, hless⟩
  cases hphase : m.cpu.phase with
  | fetch =>
    obtain ⟨i, left, hstart, hleft⟩ := m.countCycle.fetch.2.phase_start m.countCycle.fetch.1
    refine hdone _ (cycle_of_fetch htransfer hphase) ?_ ?_
    · rw [transfer_start]
      exact htransfer
    · rw [hstart, hphase]
      exact Nat.succ_le_succ hleft
  | execute i left =>
    have hleft := one_lt_of_waiting h htransfer hphase
    refine hdone _ (cycle_of_waiting htransfer hphase hleft) htransfer ?_
    rw [phase_setPhase, hphase]
    simp only [Phase.wait]
    omega
  | enter left =>
    refine hdone _ (cycle_of_enter htransfer hphase) htransfer ?_
    rw [phase_setPhase, hphase]
    split <;> simp only [Phase.wait] <;> omega
  | stall left =>
    refine hdone _ (cycle_of_stall htransfer hphase) htransfer ?_
    rw [phase_setPhase, hphase]
    split <;> simp only [Phase.wait] <;> omega
  | jammed => exact absurd hphase hjammed

/-- A cycle that completes no instruction brings the next completion nearer, unless the processor is
jammed. -/
theorem wait_cycle (h : m.completing? = none) (hprompt : m.IsPrompt)
    (hjammed : m.cpu.phase ≠ .jammed) : m.cycle.wait + 1 ≤ m.wait := by
  cases htransfer : m.cpu.transfer with
  | some t => exact Nat.le_of_eq (wait_cycle_of_transfer htransfer (hprompt.step_lt t htransfer)).2
  | none => exact (wait_cycle_of_phase htransfer h hjammed).2

/-- The transfer and phase of a machine at the look at the lines. The transfer is the one that the
instruction has asked for. -/
theorem cpu_settled (h : m.cpu.transfer = none) (i : Instruction) :
    (m.settled i).cpu.phase = .fetch ∧
      (m.settled i).cpu.transfer =
        ((m.countCycle.setPhase .fetch).execute i).bus.transferPage.map
          fun page ↦ { page, idle := (m.cpu.cycles + 1) % 2 } := by
  have hexecute := accesses_execute (m.countCycle.setPhase .fetch) i
  have htransfer := transfer_beginTransfer (hexecute.transfer.trans h)
  rw [hexecute.cycles] at htransfer
  exact ⟨(phase_beginTransfer _).trans hexecute.phase, htransfer⟩

theorem isPrompt_of_settled {n : Machine} {page? : Option UInt8} {idle : Nat} (hidle : idle ≤ 1)
    (htransfer : n.cpu.transfer = page?.map fun page ↦ { page, idle })
    (hphase : n.cpu.phase.wait ≤ 19) : n.IsPrompt := by
  cases page? with
  | none =>
    rw [Option.map_none] at htransfer
    refine ⟨fun t ht ↦ absurd (htransfer.symm.trans ht) (Option.some_ne_none t).symm, ?_⟩
    rw [wait_of_none htransfer, longestWait]
    omega
  | some page =>
    rw [Option.map_some] at htransfer
    refine ⟨fun t ht ↦ ?_, ?_⟩
    · rw [← Option.some.inj (htransfer.symm.trans ht)]
      exact Nat.zero_lt_succ _
    · rw [wait, htransfer, Option.elim_some, Transfer.left, Transfer.steps, longestWait]
      dsimp only
      omega

theorem isPrompt_cycle_of_not_completing (h : m.completing? = none) (hprompt : m.IsPrompt) :
    m.cycle.IsPrompt := by
  cases htransfer : m.cpu.transfer with
  | some t =>
    obtain ⟨hstep, hwait⟩ := wait_cycle_of_transfer htransfer (hprompt.step_lt t htransfer)
    have hle := hprompt.wait_le
    exact ⟨hstep, by omega⟩
  | none =>
    by_cases hjammed : m.cpu.phase = .jammed
    · rw [cycle_of_jammed htransfer hjammed]
      exact ⟨hprompt.step_lt, hprompt.wait_le⟩
    · obtain ⟨hnone, hwait⟩ := wait_cycle_of_phase htransfer h hjammed
      have hle := hprompt.wait_le
      exact ⟨fun t ht ↦ absurd (hnone.symm.trans ht) (Option.some_ne_none t).symm, by omega⟩

/-- Every cycle leaves a prompt processor prompt. -/
theorem IsPrompt.cycle (h : m.IsPrompt) : m.cycle.IsPrompt := by
  rcases cycle_cases m with ⟨hnone, -, -⟩ | ⟨i, hsome, hcases⟩
  · exact isPrompt_cycle_of_not_completing hnone h
  · obtain ⟨hphase, htransfer⟩ := cpu_settled (completing?_eq_some.mp hsome).1 i
    have hidle : (m.cpu.cycles + 1) % 2 ≤ 1 := by omega
    -- a completion may start a transfer and enter an interrupt, which is the longest wait there is
    rcases hcases with ⟨-, -, hcycle⟩ | ⟨-, -, hcycle⟩ <;> rw [hcycle]
    · exact isPrompt_of_settled hidle htransfer (Nat.zero_le _)
    · cases m.entering? with
      | some interrupt =>
        refine isPrompt_of_settled hidle ((transfer_enter _ _).trans htransfer) ?_
        rw [phase_enter]
        exact Nat.le_refl 19
      | none =>
        refine isPrompt_of_settled hidle htransfer ?_
        rw [hphase]
        exact Nat.le_of_ble_eq_true rfl

end Machine

end Famicom
