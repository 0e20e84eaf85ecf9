import Famicom.Proofs.Machine.StatusMarks

/-!
# Through a vector

An interrupt takes the processor out of a program and into a routine. `Machine.LeavesThrough` says
what that is: the program counter and the status of the program are on the stack,

```text
sp      high byte of the program counter
sp - 1  low byte of the program counter
sp - 2  status, with bit 5 set and bit 4 clear,
```

the processor goes on at the word that the cartridge has at a vector, with interrupts disabled, and
seven cycles pass before it fetches an opcode there. Nothing else of the registers changes. The
unmaskable interrupt has its vector at `0xfffa` and the maskable one at `0xfffe`
(`Machine.leavesThrough_enter`).

Where a cycle enters an interrupt can be told from outside, since the phase of the processor changes
to the first of those seven cycles (`Machine.Enters`). With the counters of the processor in their
bounds no other cycle does that (`Machine.enters_iff`).
-/

namespace Famicom

/-- Where the cartridge answers, a read depends on the slot alone. -/
theorem Bus.fst_read_of_slot {b c : Bus} {addr : UInt16}
    (haddr : Region.ofAddress addr = .cartridge addr) (h : c.slot = b.slot) :
    (c.read addr).1 = (b.read addr).1 := by
  unfold Bus.read
  rw [haddr]
  dsimp only
  rw [h]
  cases b.slot.readCpu? addr <;> rfl

instance (s : Status) (mark : Bool) (b : UInt8) : Decidable (s.IsPushedAs mark b) :=
  decidable_of_iff
    (bit b 5 = true ∧ bit b 4 = mark ∧ ∀ n < 8, n ≠ 4 → n ≠ 5 → bit b n = bit s.toByte n)
    ⟨fun ⟨hunused, hmark, hflags⟩ ↦ ⟨hunused, hmark, hflags⟩,
      fun h ↦ ⟨h.unused, h.breakMark, h.flags⟩⟩

namespace Machine

/-! ## What an entry is -/

/-- The machine `n` has left the program of `s` for the routine whose address is at `vector`. -/
structure LeavesThrough (s : Machine) (vector : UInt16) (n : Machine) : Prop where
  phase : n.cpu.phase = .enter 7
  registers : n.registers =
    { s.registers with
      pc := wordOf (s.bus.read vector).1 (s.bus.read (vector + 1)).1
      sp := s.registers.sp - 3
      p := { s.registers.p with interruptDisable := true } }
  pcHigh : n.bus.stackByte s.registers.sp = highByte s.registers.pc
  pcLow : n.bus.stackByte (s.registers.sp - 1) = lowByte s.registers.pc
  status : s.registers.p.IsPushedAs false (n.bus.stackByte (s.registers.sp - 2))

instance (s : Machine) (vector : UInt16) (n : Machine) : Decidable (s.LeavesThrough vector n) :=
  decidable_of_iff
    (n.cpu.phase = .enter 7 ∧
      n.registers =
        { s.registers with
          pc := wordOf (s.bus.read vector).1 (s.bus.read (vector + 1)).1
          sp := s.registers.sp - 3
          p := { s.registers.p with interruptDisable := true } } ∧
      n.bus.stackByte s.registers.sp = highByte s.registers.pc ∧
      n.bus.stackByte (s.registers.sp - 1) = lowByte s.registers.pc ∧
      s.registers.p.IsPushedAs false (n.bus.stackByte (s.registers.sp - 2)))
    ⟨fun ⟨hphase, hregisters, hhigh, hlow, hstatus⟩ ↦ ⟨hphase, hregisters, hhigh, hlow, hstatus⟩,
      fun h ↦ ⟨h.phase, h.registers, h.pcHigh, h.pcLow, h.status⟩⟩

/-- The next cycle enters an interrupt: the processor begins to count the cycles of an entry. -/
def Enters (m : Machine) : Prop := m.cpu.phase ≠ .enter 7 ∧ m.cycle.cpu.phase = .enter 7

/-- The next cycle completes an instruction with the unmaskable interrupt in the latch, takes it
from there, and leaves the program for its routine. -/
def EntersNmi (m : Machine) : Prop :=
  ∃ i ∈ m.completing?, (m.settled i).bus.lines.nmi = true ∧ m.cycle.bus.lines.nmi = false ∧
    (m.settled i).LeavesThrough 0xfffa m.cycle

instance (m : Machine) : Decidable m.EntersNmi :=
  inferInstanceAs (Decidable (∃ i ∈ m.completing?, _))

/-- Where the address of the routine of an interrupt is. -/
def vectorOf : Interrupt → UInt16
  | .nmi => 0xfffa
  | .irq => 0xfffe

/-! ## The processor enters interrupts so -/

/-- What is pushed lies on the stack after an entry. -/
theorem stackTop_enterInterrupt (m : Machine) (vector : UInt16) (breakMark : Bool) :
    (m.enterInterrupt vector breakMark).bus.stackTop (m.registers.sp - 3) 3 =
      [m.registers.p.pushed breakMark, lowByte m.registers.pc, highByte m.registers.pc] := by
  have htop := m.stackTop_pushAll [highByte m.registers.pc, lowByte m.registers.pc,
    m.registers.p.pushed breakMark] (Nat.le_of_ble_eq_true rfl)
  rw [registers_pushAll] at htop
  rw [Bus.stackTop_congr (m.ram_enterInterrupt vector breakMark)]
  exact htop

/-- The processor goes on at the word that the vector has. -/
theorem registers_enterInterrupt (m : Machine) {vector : UInt16} (breakMark : Bool)
    (hvector : Region.ofAddress vector = .cartridge vector)
    (hnext : Region.ofAddress (vector + 1) = .cartridge (vector + 1)) :
    (m.enterInterrupt vector breakMark).registers =
      { m.registers with
        pc := wordOf (m.bus.read vector).1 (m.bus.read (vector + 1)).1
        sp := m.registers.sp - 3
        p := { m.registers.p with interruptDisable := true } } := by
  obtain ⟨ram, hsuspended⟩ := m.bus_suspended breakMark
  obtain ⟨fault, hread⟩ := bus_read_cartridge (m.suspended breakMark).bus hvector
  have hslot : (m.suspended breakMark).bus.slot = m.bus.slot := by rw [hsuspended]
  have hafter : ((m.suspended breakMark).bus.read vector).2.slot = m.bus.slot := by
    rw [hread]
    exact hslot
  rw [enterInterrupt_eq, registers_jump]
  change { (m.suspended breakMark).registers with
    pc := wordOf ((m.suspended breakMark).bus.read vector).1
      (((m.suspended breakMark).bus.read vector).2.read (vector + 1)).1 } = _
  rw [registers_suspended, Bus.fst_read_of_slot hvector hslot, Bus.fst_read_of_slot hnext hafter]

/-- Entering an interrupt leaves the program through its vector. -/
theorem leavesThrough_enter (m : Machine) (interrupt : Interrupt) :
    m.LeavesThrough (vectorOf interrupt) (m.enter interrupt) := by
  have hvector : Cpu.vector interrupt = vectorOf interrupt := by cases interrupt <;> rfl
  have hregion : Region.ofAddress (vectorOf interrupt) = .cartridge (vectorOf interrupt) ∧
      Region.ofAddress (vectorOf interrupt + 1) = .cartridge (vectorOf interrupt + 1) := by
    cases interrupt <;> exact ⟨rfl, rfl⟩
  have hplaces : m.registers.sp - 3 + 1 = m.registers.sp - 2 ∧
      m.registers.sp - 2 + 1 = m.registers.sp - 1 ∧
      m.registers.sp - 1 + 1 = m.registers.sp := by grind
  have hstack := (m.acknowledging interrupt).stackTop_enterInterrupt (vectorOf interrupt) false
  have hsp : (m.acknowledging interrupt).registers = m.registers := rfl
  simp only [Bus.stackTop, hsp, hplaces, List.cons.injEq, and_true] at hstack
  have hslot : (m.acknowledging interrupt).bus.slot = m.bus.slot := rfl
  have hregisters :=
    (m.acknowledging interrupt).registers_enterInterrupt false hregion.1 hregion.2
  rw [Bus.fst_read_of_slot hregion.1 hslot, Bus.fst_read_of_slot hregion.2 hslot] at hregisters
  rw [enter_eq, hvector]
  refine ⟨phase_setPhase _ _, hregisters, hstack.2.2, hstack.2.1, ?_⟩
  rw [bus_setPhase, hstack.1]
  exact m.registers.p.isPushedAs_pushed false

variable {m : Machine} {i : Instruction}

/-- A cycle that enters an interrupt leaves the program through the vector of that interrupt. -/
theorem leavesThrough_cycle {interrupt : Interrupt} (hi : m.completing? = some i)
    (h : m.entering? = some interrupt) :
    (m.settled i).LeavesThrough (vectorOf interrupt) m.cycle := by
  rw [cycle_of_enters hi h]
  exact (m.settled i).leavesThrough_enter interrupt

/-- An entry needs an instruction that completes and does not jam. -/
theorem exists_completing_of_entering {interrupt : Interrupt} (h : m.entering? = some interrupt) :
    ∃ i, m.completing? = some i ∧ i.operation ≠ .jam ∧
      (m.settled i).bus.lines.accepted? (m.masks i) = some interrupt := by
  rcases m.cycle_cases with ⟨-, hnone, -⟩ | ⟨i, hi, ⟨-, hnone, -⟩ | ⟨hjam, hlook, -⟩⟩
  · exact absurd (hnone.symm.trans h) (Option.some_ne_none interrupt).symm
  · exact absurd (hnone.symm.trans h) (Option.some_ne_none interrupt).symm
  · exact ⟨i, hi, hjam, hlook.symm.trans h⟩

/-- The look at the lines prefers the unmaskable interrupt. -/
theorem accepted?_eq_nmi_iff {l : Lines} {masked : Bool} :
    l.accepted? masked = some .nmi ↔ l.nmi = true := by
  unfold Lines.accepted?
  cases l.nmi with
  | true => exact ⟨fun _ ↦ rfl, fun _ ↦ rfl⟩
  | false =>
    rw [if_neg Bool.false_ne_true]
    refine ⟨fun haccepted ↦ ?_, fun hset ↦ absurd hset Bool.false_ne_true⟩
    split at haccepted
    · exact Interrupt.noConfusion (Option.some.inj haccepted)
    · exact absurd haccepted.symm (Option.some_ne_none _)

theorem accepted?_eq_irq_iff {l : Lines} {masked : Bool} :
    l.accepted? masked = some .irq ↔ l.nmi = false ∧ l.irq = true ∧ masked = false := by
  obtain ⟨nmi, irq⟩ := l
  cases nmi <;> cases irq <;> cases masked <;> decide

/-- With its counters in their bounds the processor enters an interrupt exactly where the look at
the lines accepts one. -/
theorem enters_iff (h : m.cpu.IsControlled) :
    m.Enters ↔ ∃ interrupt, m.entering? = some interrupt := by
  constructor
  · rintro ⟨hbefore, hafter⟩
    rcases m.cycle_cases with ⟨hnone, -, -⟩ | ⟨i, hi, ⟨-, -, hcycle⟩ | ⟨-, -, hcycle⟩⟩
    · -- without a completion the phase could only have come down from above its bound
      exfalso
      cases m.moves_cycle with
      | transfer _ _ _ _ phase => exact hbefore (phase.symm.trans hafter)
      | start _ _ _ _ _ phase => exact Phase.noConfusion (phase.symm.trans hafter)
      | wait _ _ _ _ _ _ phase => exact Phase.noConfusion (phase.symm.trans hafter)
      | complete i left _ _ before execute last =>
        rw [completing?_eq_some.mpr ⟨before, left, execute, last⟩] at hnone
        exact Option.some_ne_none i hnone
      | enter left _ enter _ phase =>
        have hle := h.phase.remaining_le
        rw [enter, Phase.remaining] at hle
        rw [hafter] at phase
        split at phase
        · have hseven := Phase.enter.inj phase
          omega
        · exact Phase.noConfusion phase
      | stall left _ _ _ phase =>
        rw [hafter] at phase
        split at phase <;> exact Phase.noConfusion phase
      | jammed _ _ _ phase => exact Phase.noConfusion (phase.symm.trans hafter)
    · rw [hcycle, phase_setPhase] at hafter
      exact Phase.noConfusion hafter
    · cases hentering : m.entering? with
      | some interrupt => exact ⟨interrupt, rfl⟩
      | none =>
        rw [hcycle, hentering] at hafter
        have hfetch := (cpu_settled (completing?_eq_some.mp hi).1 i).1
        exact Phase.noConfusion (hfetch.symm.trans hafter)
  · rintro ⟨interrupt, hentering⟩
    obtain ⟨i, hi, -, -⟩ := exists_completing_of_entering hentering
    obtain ⟨-, left, hphase, -⟩ := completing?_eq_some.mp hi
    exact ⟨fun hseven ↦ Phase.noConfusion (hphase.symm.trans hseven),
      (leavesThrough_cycle hi hentering).phase⟩

/-- The unmaskable interrupt is entered exactly where the look accepts it. -/
theorem entersNmi_iff (m : Machine) : m.EntersNmi ↔ m.entering? = some .nmi := by
  constructor
  · rintro ⟨i, hi, hset, -, hleaves⟩
    have hjam : i.operation ≠ .jam := by
      intro hop
      have hphase := hleaves.phase
      rw [cycle_of_jamming hi hop, phase_setPhase] at hphase
      exact Phase.noConfusion hphase
    rw [entering?_of_completing hi hjam, accepted?_eq_nmi_iff]
    exact hset
  · intro hentering
    obtain ⟨i, hi, -, haccepted⟩ := exists_completing_of_entering hentering
    refine ⟨i, hi, accepted?_eq_nmi_iff.mp haccepted, ?_, leavesThrough_cycle hi hentering⟩
    obtain ⟨ram, fault, hbus⟩ := (m.settled i).bus_enter .nmi
    rw [cycle_of_enters hi hentering, hbus]
    rfl

/-- Where an interrupt is entered an instruction completes, and it is the unmaskable one if that is
in the latch. Otherwise the line of the maskable one is up and not masked, and the program is left
through its vector. -/
theorem Enters.cases (henters : m.Enters) (h : m.cpu.IsControlled) :
    m.EntersNmi ∨
      ∃ i, m.completing? = some i ∧ (m.settled i).bus.lines.nmi = false ∧
        (m.settled i).bus.lines.irq = true ∧ m.masks i = false ∧
        (m.settled i).LeavesThrough 0xfffe m.cycle := by
  obtain ⟨interrupt, hentering⟩ := (enters_iff h).mp henters
  cases interrupt with
  | nmi => exact Or.inl (m.entersNmi_iff.mpr hentering)
  | irq =>
    obtain ⟨i, hi, -, haccepted⟩ := exists_completing_of_entering hentering
    obtain ⟨hnmi, hirq, hmasks⟩ := accepted?_eq_irq_iff.mp haccepted
    exact Or.inr ⟨i, hi, hnmi, hirq, hmasks, leavesThrough_cycle hi hentering⟩

/-- An instruction that completes with the line of the maskable interrupt up and not masked is
followed by an entry, through the vector of the interrupt that goes first. -/
theorem leavesThrough_of_irq (hi : m.completing? = some i) (hjam : i.operation ≠ .jam)
    (hirq : (m.settled i).bus.lines.irq = true) (hmasks : m.masks i = false) :
    (m.settled i).LeavesThrough (if (m.settled i).bus.lines.nmi then 0xfffa else 0xfffe)
      m.cycle := by
  have hlook := entering?_of_completing hi hjam
  cases hnmi : (m.settled i).bus.lines.nmi with
  | true => exact leavesThrough_cycle hi (hlook.trans (accepted?_eq_nmi_iff.mpr hnmi))
  | false =>
    exact leavesThrough_cycle hi (hlook.trans (accepted?_eq_irq_iff.mpr ⟨hnmi, hirq, hmasks⟩))

end Machine

end Famicom
