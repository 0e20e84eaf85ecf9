import Famicom.Proofs.Console.Transfer
import Famicom.Proofs.Sound.Schedule

/-!
# Interrupts are entered for their causes

What `Famicom.Proofs.Console.Nmi` counts and `Famicom.Proofs.Console.Reachable` says of the line of
the maskable interrupt is put together here with what an entry does (`Machine.LeavesThrough`).

After a reset the program is left through `0xfffa` once for every rise of the output, and what is
not left through there is left through `0xfffe` (`Console.entries_add_pending`). The maskable
interrupt is entered for the flag of the sequencer, and where that is up and not masked no
instruction completes without an entry (`Console.Reachable.irq_iff_irqFlag`).

## A program that waits

Both are seen at work on one cartridge, whose program sets the control byte of the picture chip,
lets the maskable interrupt in and then jumps to itself, as the routines of the interrupts do.
`Waits control k` holds of a machine that is in one of these loops and completes a jump after `k`
more cycles, or that is entering an interrupt and completes one then. Every cycle keeps to the loops
(`Waits.cycle`, `Waits.cycle_jump`), whatever the chips do in between, so the machine waits for ever
(`waits_stepDots`), and what it waits for is decided by the chips alone: the beam comes to the
vertical blank (`Reachable.exists_line`), and the sequencer to its fourth step (`RunsFree`).
-/

namespace Famicom

namespace Console

variable {c : Console}

/-! ## Runs after a reset -/

/-- The counters of the processor are within their bounds, between dots and before every cycle. -/
theorem Reachable.isControlled (h : Reachable c) :
    c.cpu.IsControlled ∧ ∀ m ∈ c.cycled, m.cpu.IsControlled := by
  have hreset (c : Console) (powerCycle : Bool) : (c.reset powerCycle).cpu.IsControlled := by
    obtain ⟨_, _, _, _, _, hreset⟩ := c.reset_eq powerCycle
    rw [hreset]
    exact ⟨.stall (Nat.le_refl 7), nofun⟩
  have hdot (c : Console) (hc : c.cpu.IsControlled) :=
    runCycles_preserves (P := fun m ↦ m.cpu.IsControlled) (n := c.clock.tick.1) (m := c.pictured)
      (fun m hm ↦ hm.moves m.moves_cycle) hc
  have hcpu : c.cpu.IsControlled :=
    h.invariant (P := fun c ↦ c.cpu.IsControlled) (fun tv ↦ hreset _ true)
      (fun c hc ↦ (hdot c hc).1) (fun c powerCycle _ ↦ hreset c powerCycle)
      (fun c slot _ ↦ hreset _ true) (fun c addr ↦ id) (fun c pads ↦ id)
  exact ⟨hcpu, (hdot c hcpu).2⟩

/-! ## A program that waits

A cartridge of 16 KiB whose program sets the control byte, lets the maskable interrupt in, and
waits. The routines of the two interrupts wait too, that of the maskable one at its own place:

```text
8000  lda #control
8002  sta $2000
8005  cli
8006  jmp $8006
8009  jmp $8009
```
-/

/-- The program, and the vectors at its end. -/
def waitProgram (control : UInt8) : Array UInt8 :=
  #[0xa9, control, 0x8d, 0x00, 0x20, 0x58, 0x4c, 0x06, 0x80, 0x4c, 0x09, 0x80] ++
    Array.replicate 0x3fee 0 ++ #[0x06, 0x80, 0x00, 0x80, 0x09, 0x80]

/-- Its bytes that are read, with their addresses. -/
def waitListing (control : UInt8) : List (UInt16 × UInt8) :=
  [(0x8000, 0xa9), (0x8001, control), (0x8002, 0x8d), (0x8003, 0x00), (0x8004, 0x20),
    (0x8005, 0x58), (0x8006, 0x4c), (0x8007, 0x06), (0x8008, 0x80), (0x8009, 0x4c),
    (0x800a, 0x09), (0x800b, 0x80), (0xfffa, 0x06), (0xfffb, 0x80), (0xfffc, 0x00),
    (0xfffd, 0x80), (0xfffe, 0x09), (0xffff, 0x80)]

/-- The places of the two jumps. -/
def IsLoop (start : UInt16) : Prop := start = 0x8006 ∨ start = 0x8009

variable {control value : UInt8}

theorem size_waitProgram (control : UInt8) : (waitProgram control).size = 0x4000 := by
  simp [waitProgram]

theorem readCpu?_wait {addr : UInt16} {byte : UInt8} (h : (addr, byte) ∈ waitListing control) :
    (smallSlot (waitProgram control)).readCpu? addr = some byte ∧
      Region.ofAddress addr = .cartridge addr := by
  simp only [waitListing, List.mem_cons, List.not_mem_nil, or_false, Prod.mk.injEq] at h
  rcases h with ⟨rfl, rfl⟩ | ⟨rfl, rfl⟩ | ⟨rfl, rfl⟩ | ⟨rfl, rfl⟩ | ⟨rfl, rfl⟩ | ⟨rfl, rfl⟩ |
    ⟨rfl, rfl⟩ | ⟨rfl, rfl⟩ | ⟨rfl, rfl⟩ | ⟨rfl, rfl⟩ | ⟨rfl, rfl⟩ | ⟨rfl, rfl⟩ | ⟨rfl, rfl⟩ |
    ⟨rfl, rfl⟩ | ⟨rfl, rfl⟩ | ⟨rfl, rfl⟩ | ⟨rfl, rfl⟩ | ⟨rfl, rfl⟩ <;>
    refine ⟨?_, rfl⟩ <;> rw [readCpu?_small (size_waitProgram _) (by decide)] <;>
    simp [waitProgram]

/-- At each of the two places there is a jump to it. -/
theorem IsLoop.listed {start : UInt16} (h : IsLoop start) (control : UInt8) :
    (start, 0x4c) ∈ waitListing control ∧
      ∃ low high, (start + 1, low) ∈ waitListing control ∧
        (start + 1 + 1, high) ∈ waitListing control ∧ wordOf low high = start := by
  rcases h with rfl | rfl
  · refine ⟨by simp [waitListing], 0x06, 0x80, ?_, ?_, UInt16.toNat_inj.mp (toNat_wordOf 0x06 0x80)⟩
    · simp [waitListing]
    · simp [waitListing]
  · refine ⟨by simp [waitListing], 0x09, 0x80, ?_, ?_, UInt16.toNat_inj.mp (toNat_wordOf 0x09 0x80)⟩
    · simp [waitListing]
    · simp [waitListing]

/-- A console with that cartridge, just switched on. -/
def waiting (control : UInt8) : Console :=
  (powerOn .ntsc).replaceSlot (smallSlot (waitProgram control))

theorem restarted_waiting (control : UInt8) : Restarted (waiting control) := by
  have hinsert : (powerOn .ntsc).insert (smallHeader ++ waitProgram control) =
      .ok (waiting control) := by
    rw [insert, ofBytes_small (size_waitProgram control)]
    rfl
  exact .insert (.powerOn .ntsc) hinsert

/-- The bus of that console while `value` is the control byte. Without the bit that switches it on
the unmaskable interrupt is not asked for. -/
structure RunsWait (control value : UInt8) (b : Bus) : Prop where
  slot : b.slot = smallSlot (waitProgram control)
  transferPage : b.transferPage = none
  control : b.ppu.controls.control = value
  quiet : bit value 7 = false → b.lines.nmi = false

namespace RunsWait

variable {b : Bus}

theorem read (h : RunsWait control value b) {addr : UInt16} {byte : UInt8}
    (hbyte : (addr, byte) ∈ waitListing control) : b.read addr = (byte, b) := by
  obtain ⟨hvalue, hregion⟩ := readCpu?_wait hbyte
  rw [← h.slot] at hvalue
  exact Machine.bus_read_of_readCpu? hregion hvalue

theorem fetch {m : Machine} (h : RunsWait control value m.bus) {byte : UInt8}
    (hbyte : (m.registers.pc, byte) ∈ waitListing control) :
    m.fetch = (byte, m.jump (m.registers.pc + 1)) := by
  obtain ⟨hvalue, hregion⟩ := readCpu?_wait hbyte
  rw [← h.slot] at hvalue
  exact Machine.fetch_of_readCpu? hregion hvalue

theorem fetchWord {m : Machine} (h : RunsWait control value m.bus) {low high : UInt8}
    (hlow : (m.registers.pc, low) ∈ waitListing control)
    (hhigh : (m.registers.pc + 1, high) ∈ waitListing control) :
    m.fetchWord = (wordOf low high, m.jump (m.registers.pc + 1 + 1)) := by
  have hnext : (m.jump (m.registers.pc + 1)).fetch =
      (high, m.jump (m.registers.pc + 1 + 1)) :=
    fetch (m := m.jump (m.registers.pc + 1)) h hhigh
  rw [Machine.fetchWord, h.fetch hlow]
  dsimp only
  rw [hnext]

/-- The first cycle of an instruction whose address comes after its opcode. -/
theorem cycle_absolute {m : Machine} (h : RunsWait control value m.bus)
    (htransfer : m.cpu.transfer = none) (hphase : m.cpu.phase = .fetch) {opcode low high : UInt8}
    (hopcode : (m.registers.pc, opcode) ∈ waitListing control)
    (hlow : (m.registers.pc + 1, low) ∈ waitListing control)
    (hhigh : (m.registers.pc + 1 + 1, high) ∈ waitListing control)
    (hmode : Mode.ofOpcode opcode = .absolute) :
    let i : Instruction := ⟨Opcode.operation opcode, .absolute, wordOf low high, false⟩
    m.cycle = (m.countCycle.jump (m.registers.pc + 1 + 1 + 1)).setPhase
      (.execute i (i.cycles opcode m.registers.p - 1)) := by
  have hm : RunsWait control value m.countCycle.bus := h
  have hfetch : m.countCycle.fetch = (opcode, m.countCycle.jump (m.registers.pc + 1)) :=
    hm.fetch hopcode
  have hword : (m.countCycle.jump (m.registers.pc + 1)).fetchWord =
      (wordOf low high, m.countCycle.jump (m.registers.pc + 1 + 1 + 1)) :=
    fetchWord (m := m.countCycle.jump (m.registers.pc + 1)) hm hlow hhigh
  rw [Machine.cycle_of_fetch htransfer hphase, hfetch, Machine.start, hmode]
  simp only [Machine.resolve, hword]
  rfl

theorem clockPicture (h : RunsWait control value b) : RunsWait control value b.clockPicture.2 := by
  obtain ⟨⟨v, hit, overflow, selected, latch, shifters, frame, htick⟩, hnmi, -⟩ :=
    b.ppu.tick_eq b.slot.readPpu
  refine ⟨h.slot, h.transferPage, ?_, fun hoff ↦ ?_⟩
  · change (b.ppu.tick b.slot.readPpu).ppu.controls.control = value
    rw [htick]
    exact h.control
  · have hdown : (b.ppu.tick b.slot.readPpu).nmi = false := by
      rw [hnmi, Controls.nmiEnabled, h.control, hoff, Bool.and_false, Bool.false_and]
    change (if (b.ppu.tick b.slot.readPpu).nmi then b.lines.requestNmi else b.lines).nmi = false
    rw [hdown, if_neg Bool.false_ne_true]
    exact h.quiet hoff

theorem clockSound (h : RunsWait control value b) : RunsWait control value b.clockSound :=
  ⟨h.slot, h.transferPage, h.control, fun hoff ↦ (Bus.nmi_clockSound b).trans (h.quiet hoff)⟩

/-- The store of the control byte, which asks for no interrupt by itself. -/
theorem writeControl (h : RunsWait control 0 b) :
    RunsWait control control (b.write 0x2000 control) := by
  have hwrite : b.write 0x2000 control = { b with ppu := (b.ppu.busWrite 0 control).1 } := rfl
  rw [hwrite]
  exact ⟨h.slot, h.transferPage, rfl, fun _ ↦ h.quiet rfl⟩

theorem beginTransfer {m : Machine} (h : RunsWait control value m.bus) :
    m.beginTransfer = m := by
  have hsame : { m.bus with transferPage := none } = m.bus := by rw [← h.transferPage]
  rw [Machine.beginTransfer_eq, hsame, h.transferPage]

/-- The two routines. -/
theorem vectors (h : RunsWait control value b) :
    wordOf (b.read 0xfffa).1 (b.read 0xfffb).1 = 0x8006 ∧
      wordOf (b.read 0xfffe).1 (b.read 0xffff).1 = 0x8009 := by
  have hnmi : b.read 0xfffa = (0x06, b) ∧ b.read 0xfffb = (0x80, b) :=
    ⟨h.read (by simp [waitListing]), h.read (by simp [waitListing])⟩
  have hirq : b.read 0xfffe = (0x09, b) ∧ b.read 0xffff = (0x80, b) :=
    ⟨h.read (by simp [waitListing]), h.read (by simp [waitListing])⟩
  rw [hnmi.1, hnmi.2, hirq.1, hirq.2]
  constructor
  · exact UInt16.toNat_inj.mp (toNat_wordOf 0x06 0x80)
  · exact UInt16.toNat_inj.mp (toNat_wordOf 0x09 0x80)

/-- An interrupt is entered at one of the loops. -/
theorem enter {m : Machine} (h : RunsWait control value m.bus) (interrupt : Interrupt) :
    RunsWait control value (m.enter interrupt).bus ∧ IsLoop (m.enter interrupt).registers.pc := by
  obtain ⟨ram, fault, hbus⟩ := m.bus_enter interrupt
  have hpc := congrArg Registers.pc (m.leavesThrough_enter interrupt).registers
  rw [hbus]
  refine ⟨⟨h.slot, h.transferPage, h.control, fun hoff ↦ ?_⟩, ?_⟩
  · have hclear := h.quiet hoff
    cases interrupt with
    | nmi => rfl
    | irq => exact hclear
  · rw [hpc]
    cases interrupt with
    | nmi => exact Or.inl h.vectors.1
    | irq => exact Or.inr h.vectors.2

end RunsWait

/-! ### The way to the loop -/

/-- The processor after `k` cycles: the reset, and the three instructions before the loop. -/
def waitCpu (control : UInt8) (k : Nat) : Cpu :=
  let loaded : Registers := { a := control, p := Status.powerOn.withResult control }
  if k < 7 then { registers := { pc := 0x8000 }, phase := .stall (7 - k), cycles := k }
  else if k = 7 then { registers := { pc := 0x8000 }, cycles := k }
  else if k = 8 then
    { registers := { pc := 0x8002 }
      phase := .execute ⟨.load .lda, .immediate, 0x8001, false⟩ 1
      cycles := k }
  else if k = 9 then { registers := { loaded with pc := 0x8002 }, cycles := k }
  else if k < 13 then
    { registers := { loaded with pc := 0x8005 }
      phase := .execute ⟨.store .sta, .absolute, 0x2000, false⟩ (13 - k)
      cycles := k }
  else if k = 13 then { registers := { loaded with pc := 0x8005 }, cycles := k }
  else
    { registers := { loaded with pc := 0x8006 }
      phase := .execute ⟨.register .cli, .implicit, 0, false⟩ 1
      cycles := k }

/-- A completion with the unmaskable interrupt not in the latch and the maskable one masked. -/
theorem cycle_of_masked {m : Machine} {i : Instruction} (hi : m.completing? = some i)
    (hjam : i.operation ≠ .jam) (hnmi : (m.settled i).bus.lines.nmi = false)
    (hmasks : m.masks i = true) : m.cycle = m.settled i := by
  have hnone : m.entering? = none := by
    rw [Machine.entering?_of_completing hi hjam, Lines.accepted?, hnmi, hmasks, Bool.not_true,
      Bool.and_false]
    rfl
  rw [Machine.cycle_of_entering hi hjam, hnone]

section

variable {b : Bus}

/-- The first cycle of the load. -/
theorem cycle_fetchLoad (h : RunsWait control 0 b) :
    Machine.cycle ⟨waitCpu control 7, b⟩ = ⟨waitCpu control 8, b⟩ := by
  let m : Machine := (Machine.mk (waitCpu control 7) b).countCycle
  have hm : RunsWait control 0 m.bus := h
  have hopcode : m.fetch = (0xa9, m.jump 0x8001) :=
    hm.fetch (show (0x8000, _) ∈ _ by simp [waitListing])
  have hmode : Mode.ofOpcode 0xa9 = .immediate := rfl
  have hpc : (m.jump 0x8001).registers.pc = 0x8001 := rfl
  have hnext : (0x8001 + 1 : UInt16) = 0x8002 := rfl
  rw [Machine.cycle_of_fetch rfl rfl, hopcode, Machine.start, hmode]
  simp only [Machine.resolve, hpc, hnext]
  rfl

/-- The load completes, with the control byte as its operand. -/
theorem cycle_load (h : RunsWait control 0 b) :
    Machine.cycle ⟨waitCpu control 8, b⟩ = ⟨waitCpu control 9, b⟩ := by
  let i : Instruction := ⟨.load .lda, .immediate, 0x8001, false⟩
  let m : Machine := ⟨waitCpu control 8, b⟩
  have hread : b.read 0x8001 = (control, b) := h.read (by simp [waitListing])
  have hoperand : m.acting.operand i = (control, m.acting) := by
    change ((b.read 0x8001).1, Machine.mk m.acting.cpu (b.read 0x8001).2) = _
    rw [hread]
    rfl
  have hexecute : m.acting.execute i = ⟨waitCpu control 9, b⟩ := by
    change (m.acting.operand i).2.modifyRegisters (·.load .lda (m.acting.operand i).1) = _
    rw [hoperand]
    rfl
  have hsettled : m.settled i = ⟨waitCpu control 9, b⟩ := by
    change (m.acting.execute i).beginTransfer = _
    rw [hexecute]
    exact RunsWait.beginTransfer (m := ⟨waitCpu control 9, b⟩) h
  rw [cycle_of_masked (i := i) rfl (by decide) ?_ rfl]
  · exact hsettled
  · change (m.settled i).bus.lines.nmi = false
    rw [hsettled]
    exact h.quiet rfl

/-- The first cycle of the store. -/
theorem cycle_fetchStore (h : RunsWait control 0 b) :
    Machine.cycle ⟨waitCpu control 9, b⟩ = ⟨waitCpu control 10, b⟩ := by
  have htarget : wordOf 0x00 0x20 = 0x2000 := UInt16.toNat_inj.mp (toNat_wordOf 0x00 0x20)
  have hcycle := RunsWait.cycle_absolute (m := ⟨waitCpu control 9, b⟩) h rfl rfl
    (show (0x8002, 0x8d) ∈ _ by simp [waitListing])
    (show (0x8003, 0x00) ∈ _ by simp [waitListing])
    (show (0x8004, 0x20) ∈ _ by simp [waitListing]) rfl
  rw [htarget] at hcycle
  exact hcycle

/-- Until the store completes the cycles leave the bus as it is. -/
theorem cycle_waitCpu (h : RunsWait control 0 b) {k : Nat} (hk : k < 12) :
    Machine.cycle ⟨waitCpu control k, b⟩ = ⟨waitCpu control (k + 1), b⟩ := by
  match k with
  | 7 => exact cycle_fetchLoad h
  | 8 => exact cycle_load h
  | 9 => exact cycle_fetchStore h
  -- the stall and the waits of the store only count
  | 0 | 1 | 2 | 3 | 4 | 5 | 6 | 10 | 11 => rfl

/-- The store of the control byte. -/
theorem cycle_store (h : RunsWait control 0 b) :
    Machine.cycle ⟨waitCpu control 12, b⟩ = ⟨waitCpu control 13, b.write 0x2000 control⟩ := by
  let i : Instruction := ⟨.store .sta, .absolute, 0x2000, false⟩
  let m : Machine := ⟨waitCpu control 12, b⟩
  have hsettled : m.settled i = ⟨waitCpu control 13, b.write 0x2000 control⟩ :=
    RunsWait.beginTransfer (m := ⟨waitCpu control 13, b.write 0x2000 control⟩) h.writeControl
  rw [cycle_of_masked (i := i) rfl (by decide) ?_ rfl]
  · exact hsettled
  · change (m.settled i).bus.lines.nmi = false
    rw [hsettled]
    exact h.quiet rfl

/-- The first cycle of the instruction that lets the interrupt in. -/
theorem cycle_fetchClear (h : RunsWait control control b) :
    Machine.cycle ⟨waitCpu control 13, b⟩ = ⟨waitCpu control 14, b⟩ := by
  let m : Machine := (Machine.mk (waitCpu control 13) b).countCycle
  have hm : RunsWait control control m.bus := h
  have hopcode : m.fetch = (0x58, m.jump 0x8006) :=
    hm.fetch (show (0x8005, _) ∈ _ by simp [waitListing])
  have hmode : Mode.ofOpcode 0x58 = .implicit := rfl
  rw [Machine.cycle_of_fetch rfl rfl, hopcode, Machine.start, hmode]
  simp only [Machine.resolve]
  rfl

end

/-! ### The loop -/

/-- What the processor does `k` cycles before the last cycle of a jump to `start`. -/
def waitPhase (start : UInt16) : (k : Nat) → Phase
  | 0 => .execute ⟨.jmp, .absolute, start, false⟩ 1
  | 1 => .execute ⟨.jmp, .absolute, start, false⟩ 2
  | 2 => .fetch
  | k + 3 => .enter (k + 1)

/-- The machine waits, and completes a jump after `k` more cycles. -/
structure Waits (control : UInt8) (k : Nat) (m : Machine) : Prop where
  bus : RunsWait control control m.bus
  transfer : m.cpu.transfer = none
  loop : ∃ start, IsLoop start ∧ m.cpu.phase = waitPhase start k ∧
    (2 ≤ k → m.registers.pc = start)

namespace Waits

variable {m : Machine} {k : Nat}

theorem clockPicture (h : Waits control k m) : Waits control k ⟨m.cpu, m.bus.clockPicture.2⟩ :=
  ⟨h.bus.clockPicture, h.transfer, h.loop⟩

theorem sharedCycle (h : Waits control k m.cycle) : Waits control k m.sharedCycle :=
  ⟨h.bus.clockSound, h.transfer, h.loop⟩

/-- The first cycle of a jump. -/
theorem cycle_fetch (h : Waits control 2 m) :
    IsLoop m.registers.pc ∧
      m.cycle =
        (m.countCycle.jump (m.registers.pc + 1 + 1 + 1)).setPhase
          (.execute ⟨.jmp, .absolute, m.registers.pc, false⟩ 2) := by
  obtain ⟨start, hstart, hphase, hpc⟩ := h.loop
  obtain rfl := hpc (Nat.le_refl 2)
  obtain ⟨hopcode, low, high, hlow, hhigh, htarget⟩ := hstart.listed control
  have hcycle := h.bus.cycle_absolute h.transfer hphase hopcode hlow hhigh rfl
  rw [htarget] at hcycle
  exact ⟨hstart, hcycle⟩

/-- Before the jump completes nothing happens on the bus. -/
theorem cycle (h : Waits control (k + 1) m) :
    m.cycle.bus = m.bus ∧ m.cycle.registers.p = m.registers.p ∧ Waits control k m.cycle := by
  obtain ⟨start, hstart, hphase, hpc⟩ := h.loop
  match k with
  | 0 =>
    rw [Machine.cycle_of_waiting h.transfer hphase (Nat.lt_succ_self 1)]
    exact ⟨rfl, rfl, h.bus, h.transfer, start, hstart, rfl, fun hle ↦ absurd hle (by decide)⟩
  | 1 =>
    obtain ⟨hthere, hcycle⟩ := h.cycle_fetch
    rw [hcycle]
    exact ⟨rfl, rfl, h.bus, h.transfer, _, hthere, rfl, fun hle ↦ absurd hle (by decide)⟩
  | 2 =>
    rw [Machine.cycle_of_enter h.transfer hphase]
    exact ⟨rfl, rfl, h.bus, h.transfer, start, hstart, rfl, fun _ ↦ hpc (by decide)⟩
  | k + 3 =>
    rw [Machine.cycle_of_enter h.transfer hphase, if_pos (by omega)]
    exact ⟨rfl, rfl, h.bus, h.transfer, start, hstart, rfl, fun _ ↦ hpc (by omega)⟩

/-- After a completion that leaves the program in one of the loops, the machine waits again, or it
enters an interrupt and waits then. -/
theorem of_settled {i : Instruction} (hi : m.completing? = some i) (hjam : i.operation ≠ .jam)
    (hbus : RunsWait control control (m.settled i).bus)
    (htransfer : (m.settled i).cpu.transfer = none)
    (hpc : IsLoop (m.settled i).registers.pc) :
    (m.entering? = none ∧ m.cycle = m.settled i ∧ Waits control 2 m.cycle) ∨
      m.entering? ≠ none ∧ Waits control 9 m.cycle := by
  have hcycle := Machine.cycle_of_entering hi hjam
  cases hentering : m.entering? with
  | none =>
    rw [hentering] at hcycle
    have hfetch := (Machine.cpu_settled (Machine.completing?_eq_some.mp hi).1 i).1
    rw [hcycle]
    exact Or.inl ⟨rfl, rfl, hbus, htransfer, _, hpc, hfetch, fun _ ↦ rfl⟩
  | some interrupt =>
    rw [hentering] at hcycle
    obtain ⟨hthere, hroutine⟩ := hbus.enter interrupt
    rw [hcycle]
    refine Or.inr ⟨Option.some_ne_none interrupt, hthere, ?_, _, hroutine,
      (m.settled i).phase_enter interrupt, fun _ ↦ rfl⟩
    exact ((m.settled i).transfer_enter interrupt).trans htransfer

/-- The last cycle of a jump. -/
theorem cycle_jump (h : Waits control 0 m) :
    ∃ i, m.completing? = some i ∧ i.operation = .jmp ∧ (m.settled i).bus = m.bus ∧
      (m.settled i).registers.p = m.registers.p ∧
      ((m.entering? = none ∧ m.cycle = m.settled i ∧ Waits control 2 m.cycle) ∨
        m.entering? ≠ none ∧ Waits control 9 m.cycle) := by
  obtain ⟨start, hstart, hphase, -⟩ := h.loop
  let i : Instruction := ⟨.jmp, .absolute, start, false⟩
  have hi : m.completing? = some i :=
    Machine.completing?_eq_some.mpr ⟨h.transfer, 1, hphase, Nat.le_refl 1⟩
  have hsettled : m.settled i = m.acting.jump start :=
    RunsWait.beginTransfer (m := m.acting.jump start) h.bus
  have hbus : (m.settled i).bus = m.bus := by
    rw [hsettled]
    rfl
  refine ⟨i, hi, rfl, hbus, by rw [hsettled]; rfl, of_settled hi nofun ?_ ?_ ?_⟩
  · rw [hbus]
    exact h.bus
  · rw [hsettled]
    exact h.transfer
  · rw [hsettled]
    exact hstart

end Waits

/-! ### The run -/

/-- The machine is on its way to the loop after `k` cycles. -/
structure Approaches (control : UInt8) (k : Nat) (m : Machine) : Prop where
  cpu : m.cpu = waitCpu control k
  bus : RunsWait control (if k < 13 then 0 else control) m.bus

theorem Approaches.cycle {k : Nat} {m : Machine} (h : Approaches control k m) (hk : k < 14) :
    Approaches control (k + 1) m.cycle ∧ m.cycle.bus.apu = m.bus.apu := by
  obtain ⟨cpu, b⟩ := m
  obtain ⟨rfl, hbus⟩ := h
  rcases Nat.lt_or_ge k 12 with hearly | hlate
  · rw [if_pos (by omega)] at hbus
    rw [cycle_waitCpu hbus hearly]
    exact ⟨⟨rfl, by rw [if_pos (by omega)]; exact hbus⟩, rfl⟩
  · rcases Nat.lt_or_ge k 13 with hstore | hlast
    · obtain rfl : k = 12 := by omega
      rw [cycle_store hbus]
      exact ⟨⟨rfl, hbus.writeControl⟩, rfl⟩
    · obtain rfl : k = 13 := by omega
      rw [cycle_fetchClear hbus]
      exact ⟨⟨rfl, hbus⟩, rfl⟩

/-- The last cycle on the way brings the machine to a loop. With the latch of the unmaskable
interrupt empty no interrupt is entered, and the maskable one is let in. -/
theorem Approaches.waits {m : Machine} (h : Approaches control 14 m) :
    (∃ k, Waits control k m.cycle) ∧
      (m.bus.lines.nmi = false →
        m.cycle.bus = m.bus ∧ m.cycle.registers.p.interruptDisable = false) := by
  obtain ⟨cpu, b⟩ := m
  obtain ⟨rfl, hbus⟩ := h
  let i : Instruction := ⟨.register .cli, .implicit, 0, false⟩
  let m : Machine := ⟨waitCpu control 14, b⟩
  have hi : m.completing? = some i := rfl
  have hsettled : m.settled i = m.acting.execute i :=
    RunsWait.beginTransfer (m := m.acting.execute i) hbus
  have hpc : (m.settled i).registers.pc = 0x8006 ∧
      (m.settled i).registers.p.interruptDisable = false := by
    rw [hsettled]
    exact ⟨rfl, rfl⟩
  have hsame : (m.settled i).bus = b := by
    rw [hsettled]
    rfl
  constructor
  · rcases Waits.of_settled hi nofun (by rw [hsame]; exact hbus) (by rw [hsettled]; rfl)
      (Or.inl hpc.1) with ⟨-, -, hwaits⟩ | ⟨-, hwaits⟩
    · exact ⟨2, hwaits⟩
    · exact ⟨9, hwaits⟩
  · intro hempty
    have hcycle : m.cycle = m.settled i := by
      refine cycle_of_masked hi nofun ?_ rfl
      rw [hsame]
      exact hempty
    change m.cycle.bus = b ∧ m.cycle.registers.p.interruptDisable = false
    rw [hcycle]
    exact ⟨hsame, hpc.2⟩

theorem approaches_waiting (control : UInt8) :
    Approaches control 0 (waiting control).machine ∧
      (waiting control).machine.bus.apu.sequencer = { television := .ntsc } := by
  obtain ⟨m, hm, hslot, htransfer, hppu, hapu⟩ :=
    (powerOn .ntsc).machine_replaceSlot (smallSlot (waitProgram control))
  have hlow : (smallSlot (waitProgram control)).readCpu? 0xfffc = some 0x00 :=
    (readCpu?_wait (by simp [waitListing])).1
  have hhigh : (smallSlot (waitProgram control)).readCpu? 0xfffd = some 0x80 :=
    (readCpu?_wait (by simp [waitListing])).1
  have hvector : wordOf 0x00 0x80 = 0x8000 := UInt16.toNat_inj.mp (toNat_wordOf 0x00 0x80)
  rw [← hslot] at hlow hhigh
  have hmachine := hm.trans (Machine.resetCpu_of_readCpu? hlow hhigh)
  rw [hvector] at hmachine
  rw [waiting, hmachine]
  refine ⟨⟨rfl, hslot, htransfer, ?_, fun _ ↦ rfl⟩, ?_⟩
  · change m.bus.ppu.controls.control = 0
    rw [hppu]
    rfl
  · change m.bus.apu.sequencer = _
    rw [hapu]
    rfl

/-- Some dots after switching on the machine waits. -/
theorem exists_waits (control : UInt8) :
    ∃ n k, Waits control k ((waiting control).stepDots n).2.machine := by
  have hreachable := (restarted_waiting control).reachable
  have hpicture (k : Nat) (m : Machine) (hm : Approaches control k m) :
      Approaches control k ⟨m.cpu, m.bus.clockPicture.2⟩ := ⟨hm.cpu, hm.bus.clockPicture⟩
  have hcycle (k : Nat) (m : Machine) (hk : k < 14) (hm : Approaches control k m) :
      Approaches control (k + 1) m.sharedCycle :=
    ⟨(hm.cycle hk).1.cpu, (hm.cycle hk).1.bus.clockSound⟩
  obtain ⟨a, hready, -⟩ := hreachable.counts 14 hpicture hcycle (approaches_waiting control).1
  obtain ⟨n, -, hlast, -, hnext⟩ := (hreachable.stepDots a).exists_cycled (hpicture 14) hready
  obtain ⟨⟨k, hwaits⟩, -⟩ := hlast.waits
  refine ⟨a + (n + 1), k, ?_⟩
  rw [stepDots_add, hnext]
  exact hwaits.sharedCycle

/-- It waits ever after. -/
theorem waits_stepDots {k : Nat} (h : Waits control k c.machine) (n : Nat) :
    ∃ k, Waits control k (c.stepDots n).2.machine := by
  have hcycle (m : Machine) (hm : ∃ k, Waits control k m) : ∃ k, Waits control k m.sharedCycle := by
    obtain ⟨k, hwaits⟩ := hm
    cases k with
    | zero =>
      obtain ⟨-, -, -, -, -, ⟨-, -, hnext⟩ | ⟨-, hnext⟩⟩ := hwaits.cycle_jump
      · exact ⟨2, hnext.sharedCycle⟩
      · exact ⟨9, hnext.sharedCycle⟩
    | succ k =>
      obtain ⟨-, -, hnext⟩ := hwaits.cycle
      exact ⟨k, hnext.sharedCycle⟩
  induction n with
  | zero => exact ⟨k, h⟩
  | succ n ih =>
    obtain ⟨k, hwaits⟩ := ih
    rw [stepDots_succ', machine_stepDot]
    exact (runCycles_preserves hcycle ⟨k, hwaits.clockPicture⟩).1

theorem Waits.not_jammed {k : Nat} {m : Machine} (h : Waits control k m) :
    m.cpu.isJammed = false := by
  obtain ⟨start, -, hphase, -⟩ := h.loop
  rw [Cpu.isJammed, hphase]
  obtain rfl | rfl | rfl | ⟨k, rfl⟩ : k = 0 ∨ k = 1 ∨ k = 2 ∨ ∃ j, k = j + 3 := by
    rcases Nat.lt_or_ge k 3 with hlt | hge
    · omega
    · exact Or.inr (Or.inr (Or.inr (Nat.exists_eq_add_of_le' hge)))
  all_goals rfl

/-! ## The unmaskable interrupt -/

/-- The dot after the start of line 241 starts the vertical blank. With the interrupt switched on
the output is sampled high there. -/
theorem sampled_of_blankStart (hline : c.beam.line = 241) (hdot : c.beam.dot = 0)
    (hcontrol : bit c.stepDot.2.machine.bus.ppu.controls.control 7 = true) :
    c.stepDot.2.sampled = true := by
  obtain ⟨d, hd⟩ : ∃ d, c.stepDot.2 = d := ⟨_, rfl⟩
  have hbeam := c.beam_stepDot.1
  rw [hd] at hbeam hcontrol ⊢
  -- neither the end of a line nor that of the frame is here
  have hnext : d.beam = { c.beam with dot := c.beam.dot + 1 } := by
    rcases c.beam.advance_cases c.machine.bus.ppu.controls.rendering with
      ⟨-, hpre, -, -⟩ | ⟨-, hmove⟩ | ⟨hlast, -, -⟩ | ⟨hlast, -, -⟩
    · omega
    · rw [hmove] at hbeam
      exact hbeam
    · omega
    · omega
  have hstart : d.machine.bus.ppu.beam.isAt Beam.blankLine 1 = true := by
    change (d.beam.line == 241 && d.beam.dot == 1) = true
    rw [hnext, hline, hdot]
    rfl
  have hvblank : d.machine.bus.ppu.updateStatus.vblank = true := by
    rw [Ppu.updateStatus, if_pos hstart]
  obtain ⟨⟨v, hit, overflow, selected, latch, shifters, frame, htick⟩, -, -⟩ :=
    d.machine.bus.ppu.tick_eq d.machine.bus.slot.readPpu
  change ((d.machine.bus.ppu.tick d.machine.bus.slot.readPpu).ppu.vblank &&
    bit (d.machine.bus.ppu.tick d.machine.bus.slot.readPpu).ppu.controls.control 7) = true
  rw [htick, Bool.and_eq_true]
  exact ⟨hvblank, hcontrol⟩

/-- A sample that is high has risen, there or before. -/
theorem rises_pos {j n : Nat} (hj : j < n) (h : (c.stepDots j).2.sampled = true) :
    0 < rises false n c := by
  induction n generalizing c j with
  | zero => exact absurd hj (Nat.not_lt_zero j)
  | succ n ih =>
    rw [rises]
    cases hnow : c.sampled with
    | true => exact Nat.lt_of_lt_of_le Nat.one_pos (Nat.le_add_right 1 _)
    | false =>
      cases j with
      | zero => exact absurd (hnow.symm.trans h) Bool.false_ne_true
      | succ j =>
        rw [stepDots_succ] at h
        exact Nat.lt_of_lt_of_le (ih (Nat.lt_of_succ_lt_succ hj) h) (Nat.le_add_left _ _)

/-- In every run of dots after a reset in which the processor has not jammed, the program has been
left through the vector of the unmaskable interrupt once for every rise of the output, but for the
one that may still be in the latch. A rise always finds the latch empty, and an entry that is not
for a rise goes through the vector of the maskable interrupt. -/
theorem entries_add_pending (h : Restarted c) {n : Nat}
    (hjammed : (c.stepDots n).2.cpu.isJammed = false) :
    entries n c + (c.stepDots n).2.machine.bus.lines.nmi.toNat = rises false n c ∧
      ∀ j < n,
        ((c.stepDots j).2.sampled = true →
          (∀ i, i + 1 = j → (c.stepDots i).2.sampled = false) →
          (c.stepDots j).2.machine.bus.lines.nmi = false) ∧
        ∀ m ∈ (c.stepDots j).2.cycled, m.Enters →
          m.EntersNmi ∨
            ∃ i ∈ m.completing?, (m.settled i).bus.lines.nmi = false ∧
              (m.settled i).LeavesThrough 0xfffe m.cycle := by
  obtain ⟨hlatched, hempty, hlevel⟩ := h.isLatched
  have hphase := Cpu.phase_ne_jammed hjammed
  constructor
  · have hbooks := (hlatched.stepDots hphase).2
    rw [hlevel, hempty] at hbooks
    exact hbooks
  · intro j hj
    refine ⟨fun hrise hbefore ↦ ?_, fun m hm henters ↦ ?_⟩
    · have hthere := (hlatched.stepDots (not_jammed_of_le (Nat.le_of_lt hj) hphase)).1
      refine hthere.empty_of_rise ?_ hrise
      cases j with
      | zero => exact hlevel
      | succ i =>
        have hdot := not_jammed_of_le (Nat.le_of_lt hj) hphase
        have hlast := (hlatched.stepDots (not_jammed_of_le (Nat.le_of_succ_le (Nat.le_of_lt hj))
          hphase)).1
        rw [stepDots_succ'] at hdot ⊢
        rw [(hlast.stepDot hdot).2.1]
        exact hbefore i rfl
    · have hcontrolled := (h.reachable.stepDots j).isControlled.2 m hm
      refine (henters.cases hcontrolled).imp_right ?_
      rintro ⟨i, hi, hclear, -, -, hleaves⟩
      exact ⟨i, hi, hclear, hleaves⟩

/-- A console whose program waits with the interrupt switched on, in the frame after the one where
the vertical blank has asked for it. -/
theorem entries_waiting :
    Restarted (waiting 0x80) ∧
      ∃ n, ((waiting 0x80).stepDots n).2.cpu.isJammed = false ∧
        ((waiting 0x80).stepDots n).2.machine.bus.lines.nmi = false ∧
        0 < entries n (waiting 0x80) ∧
        entries n (waiting 0x80) = rises false n (waiting 0x80) := by
  have hrestarted := restarted_waiting 0x80
  have hreachable := hrestarted.reachable
  obtain ⟨a, k, hwaits⟩ := exists_waits 0x80
  have hwaiting (n : Nat) (hn : a ≤ n) :
      ∃ k, Waits 0x80 k ((waiting 0x80).stepDots n).2.machine := by
    obtain ⟨b, rfl⟩ := Nat.exists_eq_add_of_le hn
    rw [stepDots_add]
    exact waits_stepDots hwaits b
  obtain ⟨b, hline, hdot⟩ :=
    (hreachable.stepDots a).exists_line 241 (by decide) (by decide)
  rw [← stepDots_add] at hline hdot
  obtain ⟨e, hend, -⟩ :=
    (hreachable.stepDots (a + b + 2)).exists_line 240 (by decide) (by decide)
  rw [← stepDots_add] at hend
  have hhigh : ((waiting 0x80).stepDots (a + b + 1)).2.sampled = true := by
    obtain ⟨k', hthere⟩ := hwaiting (a + b + 1) (by omega)
    rw [stepDots_succ'] at hthere ⊢
    refine sampled_of_blankStart hline hdot ?_
    rw [hthere.bus.control]
    decide
  obtain ⟨k', hthere⟩ := hwaiting (a + b + 2 + e) (by omega)
  have hjammed := hthere.not_jammed
  have hempty : ((waiting 0x80).stepDots (a + b + 2 + e)).2.machine.bus.lines.nmi = false := by
    have hlatched := (hrestarted.isLatched.1.stepDots (Cpu.phase_ne_jammed hjammed)).1
    rw [← Bool.not_eq_true]
    exact fun hset ↦ hlatched.machine.line_ne hlatched.accumulator_lt hset hend
  have hbooks := (entries_add_pending hrestarted hjammed).1
  rw [hempty, Bool.toNat_false, Nat.add_zero] at hbooks
  refine ⟨hrestarted, _, hjammed, hempty, ?_, hbooks⟩
  rw [hbooks]
  exact rises_pos (j := a + b + 1) (by omega) hhigh

/-! ## The maskable interrupt -/

/-- The sequencer has run in four steps since it was switched on, and its flag is up since the
fourth of them. -/
structure RunsFree (clocks : Nat) (s : Sequencer) : Prop where
  elapsed : s.Elapsed clocks
  television : s.television = .ntsc
  mode : s.mode = .fourStep
  irqInhibited : s.irqInhibited = false
  irqFlag : s.irqFlag = true ↔ 29828 ≤ clocks

theorem fourthStep_le : ∀ step : Fin 6, 3 ≤ step.val →
    29828 ≤ (Television.ntsc.sequencerSteps .fourStep).get step := by decide

theorem RunsFree.clock {clocks : Nat} {s : Sequencer} (h : RunsFree clocks s) :
    RunsFree (clocks + 1) s.clock.2 := by
  have hkeeps : s.clock.2.television = s.television ∧ s.clock.2.mode = s.mode ∧
      s.clock.2.irqInhibited = s.irqInhibited := by
    rcases s.clock_cases with ⟨-, hclock⟩ | ⟨-, hclock⟩ <;> rw [hclock] <;> exact ⟨rfl, rfl, rfl⟩
  have hsteps : s.steps = Television.ntsc.sequencerSteps .fourStep := by
    rw [Sequencer.steps, h.television, h.mode]
  have hperiod : s.period = 29830 := by
    rw [Sequencer.period, hsteps]
    rfl
  refine ⟨h.elapsed.clock, hkeeps.1.trans h.television, hkeeps.2.1.trans h.mode,
    hkeeps.2.2.trans h.irqInhibited, ?_⟩
  have hontime := h.elapsed.isOnTime
  refine hontime.irqFlag_clock_iff.trans ?_
  rw [h.irqFlag]
  constructor
  · rintro (hbefore | ⟨-, -, step, hlate, hlands⟩)
    · omega
    · rw [hontime.landsOn_iff_place, hperiod, hsteps] at hlands
      have hfourth := fourthStep_le step hlate
      have hsmall := Nat.mod_le clocks 29830
      omega
  · intro hend
    rcases Nat.lt_or_eq_of_le hend with hlt | heq
    · exact Or.inl (Nat.le_of_lt_succ hlt)
    · refine Or.inr ⟨h.mode, h.irqInhibited, 3, Nat.le_refl 3, ?_⟩
      rw [hontime.landsOn_iff_place, hperiod, hsteps, Nat.mod_eq_of_lt (by omega), ← heq]
      rfl

/-- Until the flag is up the machine is on its way to the loop, or in it with the maskable interrupt
let in. -/
structure Uninterrupted (k : Nat) (m : Machine) : Prop where
  sequencer : RunsFree k m.bus.apu.sequencer
  holdsIrq : m.bus.HoldsIrq
  waits : k ≤ 14 ∧ Approaches 0 k m ∨
    (∃ j, Waits 0 j m) ∧ m.registers.p.interruptDisable = false

theorem Uninterrupted.clockPicture {k : Nat} {m : Machine} (h : Uninterrupted k m) :
    Uninterrupted k ⟨m.cpu, m.bus.clockPicture.2⟩ := by
  refine ⟨h.sequencer, Bus.holdsIrq_clockPicture h.holdsIrq, ?_⟩
  rcases h.waits with ⟨hk, hway⟩ | ⟨⟨j, hwaits⟩, hmask⟩
  · exact Or.inl ⟨hk, hway.cpu, hway.bus.clockPicture⟩
  · exact Or.inr ⟨⟨j, hwaits.clockPicture⟩, hmask⟩

/-- With the flag down a jump is completed without an interrupt. -/
theorem Waits.cycle_jump_of_quiet {m : Machine} (h : Waits 0 0 m) (hirq : m.bus.lines.irq = false) :
    m.cycle.bus = m.bus ∧ m.cycle.registers.p = m.registers.p ∧ Waits 0 2 m.cycle := by
  obtain ⟨i, hi, hjmp, hbus, hp, hcases⟩ := h.cycle_jump
  have hjam : i.operation ≠ .jam := by
    rw [hjmp]
    exact nofun
  have hnone : m.entering? = none := by
    rw [Machine.entering?_of_completing hi hjam, hbus, Lines.accepted?, h.bus.quiet rfl, hirq]
    rfl
  rcases hcases with ⟨-, hcycle, hnext⟩ | ⟨hsome, -⟩
  · refine ⟨?_, ?_, hnext⟩ <;> rw [hcycle]
    · exact hbus
    · exact hp
  · exact absurd hnone hsome

theorem Uninterrupted.sharedCycle {k : Nat} {m : Machine} (hk : k < 29828) (h : Uninterrupted k m) :
    Uninterrupted (k + 1) m.sharedCycle := by
  have hirq : m.bus.lines.irq = false := by
    rw [h.holdsIrq, Apu.irqFlag, ← Bool.not_eq_true, h.sequencer.irqFlag]
    omega
  -- the cycle of the processor leaves the sound chip
  suffices hcycle : m.cycle.bus.apu = m.bus.apu ∧
      (k + 1 ≤ 14 ∧ Approaches 0 (k + 1) m.sharedCycle ∨
        (∃ j, Waits 0 j m.sharedCycle) ∧ m.sharedCycle.registers.p.interruptDisable = false) by
    refine ⟨?_, Machine.holdsIrq_sharedCycle h.holdsIrq, hcycle.2⟩
    have hclock : m.sharedCycle.bus.apu.sequencer = m.cycle.bus.apu.sequencer.clock.2 :=
      Apu.sequencer_clock _
    rw [hclock, hcycle.1]
    exact h.sequencer.clock
  rcases h.waits with ⟨hle, hway⟩ | ⟨⟨j, hwaits⟩, hmask⟩
  · rcases Nat.lt_or_eq_of_le hle with hlt | rfl
    · obtain ⟨hnext, hapu⟩ := hway.cycle hlt
      exact ⟨hapu, Or.inl ⟨hlt, hnext.cpu, hnext.bus.clockSound⟩⟩
    · obtain ⟨⟨j, hwaits⟩, hquiet⟩ := hway.waits
      obtain ⟨hbus, hmask⟩ := hquiet (hway.bus.quiet rfl)
      exact ⟨congrArg Bus.apu hbus, Or.inr ⟨⟨j, hwaits.sharedCycle⟩, hmask⟩⟩
  · cases j with
    | zero =>
      obtain ⟨hbus, hp, hnext⟩ := hwaits.cycle_jump_of_quiet hirq
      refine ⟨congrArg Bus.apu hbus, Or.inr ⟨⟨2, hnext.sharedCycle⟩, ?_⟩⟩
      exact (congrArg Status.interruptDisable hp).trans hmask
    | succ j =>
      obtain ⟨hbus, hp, hnext⟩ := hwaits.cycle
      refine ⟨congrArg Bus.apu hbus, Or.inr ⟨⟨j, hnext.sharedCycle⟩, ?_⟩⟩
      exact (congrArg Status.interruptDisable hp).trans hmask

/-- From a loop with the flag up the console comes to the last cycle of a jump. -/
theorem Reachable.exists_jump {j : Nat} (h : Reachable c) (hwaits : Waits 0 j c.machine)
    (hmask : c.machine.registers.p.interruptDisable = false)
    (hflag : c.machine.bus.apu.irqFlag = true) :
    ∃ n, ∃ m ∈ (c.stepDots n).2.cycled, Waits 0 0 m ∧ m.registers.p.interruptDisable = false ∧
      m.bus.apu.irqFlag = true ∧ m.bus.apu = (c.stepDots n).2.machine.bus.apu := by
  let P (k : Nat) (m : Machine) : Prop :=
    (∃ i, i + k = j ∧ Waits 0 i m) ∧ m.registers.p.interruptDisable = false ∧
      m.bus.apu.irqFlag = true
  have hpicture (k : Nat) (m : Machine) (hm : P k m) : P k ⟨m.cpu, m.bus.clockPicture.2⟩ := by
    obtain ⟨⟨i, hi, hthere⟩, hrest⟩ := hm
    exact ⟨⟨i, hi, hthere.clockPicture⟩, hrest⟩
  have hcycle (k : Nat) (m : Machine) (hk : k < j) (hm : P k m) : P (k + 1) m.sharedCycle := by
    obtain ⟨⟨i, hi, hthere⟩, hclear, hup⟩ := hm
    obtain ⟨i, rfl⟩ : ∃ before, i = before + 1 := Nat.exists_eq_succ_of_ne_zero (by omega)
    obtain ⟨hbus, hp, hnext⟩ := hthere.cycle
    refine ⟨⟨i, by omega, hnext.sharedCycle⟩, ?_, Apu.irqFlag_clock _ ?_⟩
    · exact (congrArg Status.interruptDisable hp).trans hclear
    · rw [hbus]
      exact hup
  obtain ⟨a, hdone, -⟩ := h.counts j hpicture hcycle ⟨⟨j, rfl, hwaits⟩, hmask, hflag⟩
  obtain ⟨n, -, hlast, hcycled, -⟩ := (h.stepDots a).exists_cycled (hpicture j) hdone
  obtain ⟨⟨i, hi, hthere⟩, hclear, hup⟩ := hlast
  obtain rfl : i = 0 := by omega
  refine ⟨a + n, _, ?_, hthere, hclear, hup, ?_⟩
  · rw [stepDots_add, hcycled]
    exact List.mem_singleton_self _
  · rw [stepDots_add]
    rfl

/-- The line of the maskable interrupt is up at the end of a dot exactly when the flag of the
sequencer is. So an interrupt is entered at the completion of an instruction only, and through the
vector of the maskable one with the flag up and the mask clear before the instruction, or clear in
the restored status after a return from an interrupt. With both there every completion is followed
by an entry, unless it jams: through that vector, or through the one of the unmaskable interrupt if
that is in the latch. -/
theorem Reachable.irq_iff_irqFlag (h : Reachable c) :
    (c.machine.bus.lines.irq = true ↔ c.machine.bus.apu.irqFlag = true) ∧
      ∀ m ∈ c.cycled,
        (m.Enters →
          m.EntersNmi ∨
            ∃ i, m.completing? = some i ∧ (m.settled i).bus.apu.irqFlag = true ∧
              (if i.operation = .rti then (m.settled i).registers.p
                else m.registers.p).interruptDisable = false ∧
              (m.settled i).LeavesThrough 0xfffe m.cycle) ∧
        ∀ i, m.completing? = some i → i.operation ≠ .jam →
          (m.settled i).bus.apu.irqFlag = true →
          (if i.operation = .rti then (m.settled i).registers.p
            else m.registers.p).interruptDisable = false →
          m.Enters ∧
            (m.settled i).LeavesThrough (if (m.settled i).bus.lines.nmi then 0xfffa else 0xfffe)
              m.cycle := by
  refine ⟨by rw [h.holdsIrq], fun m hm ↦ ⟨fun henters ↦ ?_, fun i hi hjam hflag hmask ↦ ?_⟩⟩
  · refine (henters.cases (h.isControlled.2 m hm)).imp_right ?_
    rintro ⟨i, hi, -, hline, hmask, hleaves⟩
    refine ⟨i, hi, (Machine.holdsIrq_settled (h.holdsIrq_cycled hm) i).symm.trans hline, ?_,
      hleaves⟩
    rw [← isMasked_eq_ite]
    exact hmask
  · rw [← isMasked_eq_ite] at hmask
    have hline := (Machine.holdsIrq_settled (h.holdsIrq_cycled hm) i).trans hflag
    have hleaves := Machine.leavesThrough_of_irq hi hjam hline hmask
    obtain ⟨-, left, hphase, -⟩ := Machine.completing?_eq_some.mp hi
    exact ⟨⟨fun hseven ↦ Phase.noConfusion (hphase.symm.trans hseven), hleaves.phase⟩, hleaves⟩

/-- A console whose program waits with the maskable interrupt let in, when the sequencer has flagged
it: the next jump to complete is followed by an entry, and the program goes on at `0x8009`. -/
theorem irq_waiting :
    ∃ n, Reachable ((waiting 0).stepDots n).2 ∧
      ((waiting 0).stepDots n).2.machine.bus.lines.irq = true ∧
      ∃ m ∈ ((waiting 0).stepDots n).2.cycled, ∃ i, m.completing? = some i ∧
        (m.settled i).bus.apu.irqFlag = true ∧ m.registers.p.interruptDisable = false ∧
        m.Enters ∧ (m.settled i).LeavesThrough 0xfffe m.cycle ∧
        m.cycle.registers.pc = 0x8009 := by
  have hreachable := (restarted_waiting 0).reachable
  obtain ⟨hready, hsequencer⟩ := approaches_waiting 0
  have hfree : RunsFree 0 (waiting 0).machine.bus.apu.sequencer := by
    rw [hsequencer]
    exact ⟨.powerOn .ntsc, rfl, rfl, rfl, by decide⟩
  obtain ⟨a, hflagged, -⟩ := hreachable.counts (P := Uninterrupted) 29828
    (fun k m ↦ Uninterrupted.clockPicture) (fun k m ↦ Uninterrupted.sharedCycle)
    ⟨hfree, hreachable.holdsIrq, Or.inl ⟨Nat.zero_le 14, hready⟩⟩
  obtain ⟨⟨j, hwaits⟩, hmask⟩ := hflagged.waits.resolve_left fun hway ↦ absurd hway.1 (by decide)
  obtain ⟨n, m, hm, hthere, hclear, hflag, hsame⟩ :=
    (hreachable.stepDots a).exists_jump hwaits hmask
      (hflagged.sequencer.irqFlag.mpr (Nat.le_refl _))
  rw [← stepDots_add] at hm hsame
  obtain ⟨i, hi, hjmp, hbus, -, -⟩ := hthere.cycle_jump
  have hreached := hreachable.stepDots (a + n)
  obtain ⟨hline, hinside⟩ := Reachable.irq_iff_irqFlag hreached
  obtain ⟨henters, hleaves⟩ := (hinside m hm).2 i hi (by rw [hjmp]; exact nofun)
    (by rw [hbus]; exact hflag) (by rw [hjmp]; exact hclear)
  rw [hbus, hthere.bus.quiet rfl, if_neg Bool.false_ne_true] at hleaves
  refine ⟨a + n, hreached, hline.mpr (hsame ▸ hflag), m, hm, i, hi, ?_, hclear, henters, hleaves,
    ?_⟩
  · rw [hbus]
    exact hflag
  · rw [hleaves.registers]
    change wordOf ((m.settled i).bus.read 0xfffe).1 ((m.settled i).bus.read 0xffff).1 = 0x8009
    rw [hbus]
    exact hthere.bus.vectors.2

end Console

end Famicom
