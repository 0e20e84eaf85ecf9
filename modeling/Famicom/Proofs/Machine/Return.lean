import Famicom.Proofs.Machine.Control
import Famicom.Proofs.Machine.Stack
import Famicom.Proofs.Machine.Transfer

/-!
# Calls and interrupts leave no trace

A subroutine call and the entry of an interrupt put on the stack what the matching return takes off
it again, and between the two nothing of the program that was left is lost. Three conventions have
to meet for that: a call pushes one less than the address to go on at and its return adds one; the
status is pushed with the two flags that exist only there, and pulled without them; and a break
skips the byte after its opcode.

`Machine.Left` says what the way there leaves, `Machine.Resumes` what the way back restores. The way
there is a call, a break or the entry of an interrupt; the way back is one of the two returns.

## The cycles in between

The processor takes seven cycles to enter an interrupt and six to return from it, and the rest of
the console runs meanwhile. All that is asked of it is that it keeps memory, cartridge and transfers
as they are (`IsHarmless`), which the chips do.
-/

namespace Famicom

/-- The word at `vector` is the address of an opcode in the cartridge. -/
def Slot.VectorsTo (s : Slot) (vector : UInt16) (opcode : UInt8) : Prop :=
  ∃ low high, s.readCpu? vector = some low ∧ s.readCpu? (vector + 1) = some high ∧
    Region.ofAddress (wordOf low high) = .cartridge (wordOf low high) ∧
    s.readCpu? (wordOf low high) = some opcode

/-! ## Harmless work -/

namespace Bus

variable {b c : Bus} {sp : UInt8}

/-- The bus has the same bytes in memory and cartridge, and no other transfer is asked for. -/
structure Aside (b c : Bus) : Prop extends SameMemory b c where
  transferPage : c.transferPage = b.transferPage

namespace Aside

theorem refl (b : Bus) : b.Aside b := ⟨⟨rfl, rfl, rfl⟩, rfl⟩

theorem trans {d : Bus} (hbc : b.Aside c) (hcd : c.Aside d) : b.Aside d :=
  ⟨hbc.toSameMemory.trans hcd.toSameMemory, hcd.transferPage.trans hbc.transferPage⟩

theorem read (b : Bus) (addr : UInt16) : b.Aside (b.read addr).2 := by
  rcases b.read_cases addr with h | ⟨index, h⟩ | h | ⟨i, h⟩ | h <;> rw [h] <;>
    exact ⟨⟨rfl, rfl, rfl⟩, rfl⟩

theorem readsTo (h : b.ReadsTo c) : b.Aside c :=
  h.preserves (fun d addr hd ↦ hd.trans (read d addr)) (refl b)

theorem clockPicture (b : Bus) : b.Aside b.clockPicture.2 :=
  ⟨(sameBytes_clockPicture b).toSameMemory, rfl⟩

theorem clockSound (b : Bus) : b.Aside b.clockSound := ⟨(sameBytes_clockSound b).toSameMemory, rfl⟩

end Aside

theorem UsesStack.aside {a d : Bus} {count : Nat} (hab : a.Aside b) (h : UsesStack sp count b c)
    (hcd : c.Aside d) : UsesStack sp count a d where
  ram cell hcell := by rw [hcd.ram, h.ram cell hcell, hab.ram]
  testBlock := hcd.testBlock.trans (h.testBlock.trans hab.testBlock)
  slot := hcd.slot.trans (h.slot.trans hab.slot)

/-- Nothing is asked for that the mask in `p` lets through. -/
def IsQuiet (b : Bus) (p : Status) : Prop := b.lines.accepted? p.interruptDisable = none

instance (b : Bus) (p : Status) : Decidable (b.IsQuiet p) := inferInstanceAs (Decidable (_ = _))

end Bus

/-- Work on the bus that keeps memory, cartridge and transfers as they are. -/
def IsHarmless (work : Nat → Bus → Bus) : Prop := ∀ k (b : Bus), b.Aside (work k b)

theorem IsHarmless.drop {work : Nat → Bus → Bus} (h : IsHarmless work) (n : Nat) :
    IsHarmless fun k ↦ work (n + k) := fun k b ↦ h (n + k) b

/-- The chips beside the processor: three dots of the picture and a cycle of the sound. -/
def Bus.clockChips (b : Bus) : Bus :=
  b.clockPicture.2.clockPicture.2.clockPicture.2.clockSound

theorem isHarmless_clockChips : IsHarmless fun _ ↦ Bus.clockChips := fun _ b ↦
  (Bus.Aside.clockPicture b).trans
    ((Bus.Aside.clockPicture _).trans ((Bus.Aside.clockPicture _).trans (.clockSound _)))

namespace Machine

variable {m : Machine} {work : Nat → Bus → Bus}

/-! ## Cycles with the rest of the console running -/

/-- While an interrupt is entered, nothing but the phase moves on. -/
theorem cyclesAmid_enter (hwork : IsHarmless work) (left : Nat)
    (htransfer : m.cpu.transfer = none) (hphase : m.cpu.phase = .enter (left + 1)) :
    (m.cyclesAmid work (left + 1)).cpu.atBoundary = true ∧
      (m.cyclesAmid work (left + 1)).registers = m.registers ∧
      m.bus.Aside (m.cyclesAmid work (left + 1)).bus := by
  have hcycle := cycle_of_enter htransfer hphase
  induction left generalizing m work with
  | zero =>
    rw [cyclesAmid_succ']
    change m.cycle.cpu.atBoundary = true ∧ m.cycle.registers = m.registers ∧
      m.bus.Aside (work 0 m.cycle.bus)
    rw [hcycle]
    exact ⟨Cpu.atBoundary_iff.mpr ⟨rfl, htransfer⟩, rfl, hwork 0 _⟩
  | succ left ih =>
    rw [if_pos (by omega)] at hcycle
    have hnone : m.cycle.cpu.transfer = none := by
      rw [hcycle]
      exact htransfer
    have hnext : m.cycle.cpu.phase = .enter (left + 1) := by
      rw [hcycle]
      rfl
    obtain ⟨hboundary, hregisters, hbus⟩ :=
      @ih ⟨m.cycle.cpu, work 0 m.cycle.bus⟩ (fun k ↦ work (k + 1))
        (fun k b ↦ hwork (k + 1) b) hnone hnext (cycle_of_enter hnone hnext)
    have hsame : m.cycle.registers = m.registers ∧ m.cycle.bus = m.bus := by
      rw [hcycle]
      exact ⟨rfl, rfl⟩
    refine ⟨hboundary, hregisters.trans hsame.1, Bus.Aside.trans ?_ hbus⟩
    rw [← hsame.2]
    exact hwork 0 _

/-- Before its last cycle an instruction waits, with its operand resolved. -/
theorem cyclesAmid_of_decode (hwork : IsHarmless work)
    (h : m.cpu.atBoundary = true) {j : Nat} (hpos : 0 < j) (hj : j < m.decode.cycles) :
    (m.cyclesAmid work j).cpu = (m.decode.waiting j).cpu ∧
      m.bus.Aside (m.cyclesAmid work j).bus := by
  -- the induction starts with the first cycle, in which the operand is resolved
  induction j with
  | zero => exact absurd hpos (Nat.lt_irrefl 0)
  | succ j ih =>
    rw [cyclesAmid_succ']
    cases j with
    | zero =>
      change m.cycle.cpu = _ ∧ m.bus.Aside (work 0 m.cycle.bus)
      rw [cycle_of_atBoundary h]
      exact ⟨rfl, (Bus.Aside.readsTo m.reads_decode.bus).trans (hwork 0 _)⟩
    | succ j =>
      obtain ⟨hcpu, hbus⟩ := ih (Nat.succ_pos j) (Nat.lt_of_succ_lt hj)
      have hphase : (m.cyclesAmid work (j + 1)).cpu.phase =
          .execute m.decode.instruction (m.decode.cycles - (j + 1)) := by
        rw [hcpu]
        rfl
      have htransfer : (m.cyclesAmid work (j + 1)).cpu.transfer = none := by
        rw [hcpu]
        exact transfer_decode h
      rw [cycle_of_waiting htransfer hphase (by omega)]
      refine ⟨?_, hbus.trans (hwork _ _)⟩
      change { (m.cyclesAmid work (j + 1)).cpu with
        cycles := (m.cyclesAmid work (j + 1)).cpu.cycles + 1
        phase := Phase.execute m.decode.instruction (m.decode.cycles - (j + 1) - 1) } = _
      rw [hcpu]
      rfl

/-- The machine in the last cycle of an instruction, about to have its effect. -/
def acting (m : Machine) : Machine := m.countCycle.setPhase .fetch

/-- An instruction that completes with no interrupt to enter has its effect and no other. -/
theorem cycle_of_quiet {i : Instruction} (hi : m.completing? = some i) (hjam : i.operation ≠ .jam)
    (hquiet : (m.acting.execute i).bus.lines.accepted?
      (i.operation.isMasked m.registers.p (m.acting.execute i).registers.p) = none) :
    m.cycle = (m.acting.execute i).beginTransfer := by
  have hsettled : m.settled i = (m.acting.execute i).beginTransfer := rfl
  have hnone : m.entering? = none := by
    rw [entering?_of_completing hi hjam, masks, hsettled, registers_beginTransfer,
      bus_beginTransfer]
    exact hquiet
  rw [cycle_of_entering hi hjam, hnone, hsettled]

/-- An instruction that neither branches nor pays for a page takes the cycles of its opcode. -/
theorem cycles_decode_of_fixed {opcode : UInt8} (h : m.fetch.1 = opcode)
    (hpage : Opcode.paysForPage opcode = false)
    (hbranch : (Opcode.operation opcode).isBranch = false) :
    m.decode.cycles = Opcode.cycles opcode := by
  subst h
  have hstays : m.decode.branches = false := by
    have hop : m.decode.instruction.operation.isBranch = false := hbranch
    unfold Decoded.branches
    cases hcase : m.decode.instruction.operation with
    | branch op =>
      rw [hcase] at hop
      exact absurd hop Bool.noConfusion
    | _ => rfl
  have hfree : Opcode.paysForPage m.decode.opcode = false := hpage
  rw [Decoded.cycles, hfree, hstays, Bool.and_false]
  rfl

/-- In its last cycle an instruction meets the registers that its first cycle has left, and memory
and cartridge as they were. -/
theorem acting_cyclesAmid (hwork : IsHarmless work)
    (h : m.cpu.atBoundary = true) {n : Nat} (hcycles : m.decode.cycles = n + 1) :
    (m.cyclesAmid work n).completing? = some m.decode.instruction ∧
      (m.cyclesAmid work n).acting.registers = m.decode.machine.registers ∧
      m.bus.Aside (m.cyclesAmid work n).acting.bus := by
  have htwo := two_le_cycles m.decode
  obtain ⟨hcpu, hbus⟩ := cyclesAmid_of_decode hwork h (j := n) (by omega) (by omega)
  refine ⟨completing?_eq_some.mpr ⟨?_, m.decode.cycles - n, ?_, by omega⟩, ?_, hbus⟩
  · rw [hcpu]
    exact transfer_decode h
  · rw [hcpu]
    rfl
  · change (m.cyclesAmid work n).cpu.registers = _
    rw [hcpu]
    rfl

/-- After its last cycle the processor is at the next instruction, if no interrupt is entered and no
transfer has been asked for. -/
theorem cyclesAmid_of_quiet (hwork : IsHarmless work) {n : Nat} {i : Instruction}
    (hi : (m.cyclesAmid work n).completing? = some i) (hjam : i.operation ≠ .jam) {s : Machine}
    (hs : (m.cyclesAmid work n).acting.execute i = s) (hpage : s.bus.transferPage = none)
    (hquiet : s.bus.lines.accepted?
      (i.operation.isMasked (m.cyclesAmid work n).acting.registers.p s.registers.p) = none) :
    (m.cyclesAmid work (n + 1)).cpu.atBoundary = true ∧
      (m.cyclesAmid work (n + 1)).registers = s.registers ∧
      s.bus.Aside (m.cyclesAmid work (n + 1)).bus := by
  have htransfer := (completing?_eq_some.mp hi).1
  have heffect := accesses_execute (m.cyclesAmid work n).acting i
  rw [hs] at heffect
  have hcycle : (m.cyclesAmid work n).cycle = s.beginTransfer := by
    rw [cycle_of_quiet hi hjam (by rw [hs]; exact hquiet), hs]
  rw [cyclesAmid_succ', hcycle]
  refine ⟨Cpu.atBoundary_iff.mpr ⟨?_, ?_⟩, registers_beginTransfer s, ?_⟩
  · exact (phase_beginTransfer s).trans heffect.phase
  · rw [transfer_beginTransfer (heffect.transfer.trans htransfer), hpage, Option.map_none]
  · refine Bus.Aside.trans ?_ (hwork n _)
    rw [bus_beginTransfer]
    exact ⟨⟨rfl, rfl, rfl⟩, hpage.symm⟩

/-! ## The returns -/

/-- A return from an interrupt, with the program counter and the status on top of the stack. -/
theorem returns_from_interrupt (hwork : IsHarmless work)
    (h : m.cpu.atBoundary = true) (hopcode : m.fetch.1 = 0x40)
    (hpage : m.bus.transferPage = none) {p : Status} {pc : UInt16} {breakMark : Bool}
    (hstack : m.bus.stackTop m.registers.sp 3 = [p.pushed breakMark, lowByte pc, highByte pc])
    (hunused : p.unused = true) (hbreak : p.breakMark = false)
    (hquiet : (m.cyclesAmid work 5).bus.IsQuiet p) :
    (m.cyclesAmid work 6).cpu.atBoundary = true ∧
      (m.cyclesAmid work 6).registers = { m.registers with sp := m.registers.sp + 3, p, pc } ∧
      m.bus.Aside (m.cyclesAmid work 6).bus := by
  have hop : m.decode.instruction.operation = .rti := congrArg Opcode.operation hopcode
  have hcycles : m.decode.cycles = 5 + 1 := cycles_decode_of_fixed hopcode rfl rfl
  have hpulled : Status.pulled (p.pushed breakMark) = p := by
    rw [Status.pulled, Status.pushed, Status.ofByte_toByte, ← hunused, ← hbreak]
  obtain ⟨hi, hregisters, hbus⟩ := acting_cyclesAmid hwork h hcycles
  have hsp : (m.cyclesAmid work 5).acting.registers.sp = m.registers.sp := by
    rw [hregisters, registers_decode]
  have hfound : (m.cyclesAmid work 5).acting.bus.stackTop
      (m.cyclesAmid work 5).acting.registers.sp 3 =
        [p.pushed breakMark, lowByte pc, highByte pc] := by
    rw [hsp, Bus.stackTop_congr hbus.ram, hstack]
  obtain ⟨hboundary, hend, haside⟩ := cyclesAmid_of_quiet hwork hi (by rw [hop]; decide)
    (execute_rti hop hfound) (hbus.transferPage.trans hpage) (by
      rw [hop]
      change Lines.accepted? _ (Status.pulled (p.pushed breakMark)).interruptDisable = none
      rw [hpulled]
      exact hquiet)
  refine ⟨hboundary, hend.trans ?_, hbus.trans haside⟩
  change { (m.cyclesAmid work 5).acting.registers with
    sp := (m.cyclesAmid work 5).acting.registers.sp + 3
    p := .pulled (p.pushed breakMark)
    pc := wordOf (lowByte pc) (highByte pc) } = _
  rw [hregisters, registers_decode, hpulled, wordOf_lowByte_highByte]

/-- A return from a subroutine, with one less than the address to go on at on top of the stack. -/
theorem returns_from_call (hwork : IsHarmless work)
    (h : m.cpu.atBoundary = true) (hopcode : m.fetch.1 = 0x60)
    (hpage : m.bus.transferPage = none) {pc : UInt16}
    (hstack : m.bus.stackTop m.registers.sp 2 = [lowByte pc, highByte pc])
    (hquiet : (m.cyclesAmid work 5).bus.IsQuiet m.registers.p) :
    (m.cyclesAmid work 6).cpu.atBoundary = true ∧
      (m.cyclesAmid work 6).registers =
        { m.registers with sp := m.registers.sp + 2, pc := pc + 1 } ∧
      m.bus.Aside (m.cyclesAmid work 6).bus := by
  have hop : m.decode.instruction.operation = .rts := congrArg Opcode.operation hopcode
  have hcycles : m.decode.cycles = 5 + 1 := cycles_decode_of_fixed hopcode rfl rfl
  obtain ⟨hi, hregisters, hbus⟩ := acting_cyclesAmid hwork h hcycles
  have hsp : (m.cyclesAmid work 5).acting.registers.sp = m.registers.sp := by
    rw [hregisters, registers_decode]
  have hfound : (m.cyclesAmid work 5).acting.bus.stackTop
      (m.cyclesAmid work 5).acting.registers.sp 2 = [lowByte pc, highByte pc] := by
    rw [hsp, Bus.stackTop_congr hbus.ram, hstack]
  obtain ⟨hboundary, hend, haside⟩ := cyclesAmid_of_quiet hwork hi (by rw [hop]; decide)
    (execute_rts hop hfound) (hbus.transferPage.trans hpage) (by
      rw [hop, hregisters, registers_decode]
      exact hquiet)
  refine ⟨hboundary, hend.trans ?_, hbus.trans haside⟩
  change { (m.cyclesAmid work 5).acting.registers with
    sp := (m.cyclesAmid work 5).acting.registers.sp + 2
    pc := wordOf (lowByte pc) (highByte pc) + 1 } = _
  rw [hregisters, registers_decode, wordOf_lowByte_highByte]

/-! ## The way there -/

/-- With its vector in the cartridge, an interrupt goes to the opcode there. -/
theorem enterInterrupt_of_vectorsTo {vector : UInt16} {opcode : UInt8} (breakMark : Bool)
    (hvector : Region.ofAddress vector = .cartridge vector)
    (hnext : Region.ofAddress (vector + 1) = .cartridge (vector + 1))
    (h : m.bus.slot.VectorsTo vector opcode) :
    ∃ target, m.enterInterrupt vector breakMark = (m.suspended breakMark).jump target ∧
      Region.ofAddress target = .cartridge target ∧ m.bus.slot.readCpu? target = some opcode := by
  obtain ⟨low, high, hlow, hhigh, hregion, hopcode⟩ := h
  obtain ⟨ram, hbus⟩ := m.bus_suspended breakMark
  have hslot : (m.suspended breakMark).bus.slot = m.bus.slot := by rw [hbus]
  have hreadLow := bus_read_of_readCpu? hvector (hslot.symm ▸ hlow)
  have hreadHigh := bus_read_of_readCpu? hnext (hslot.symm ▸ hhigh)
  refine ⟨wordOf low high, ?_, hregion, hopcode⟩
  rw [enterInterrupt_eq]
  simp only [readWord, Bus.readWord, hreadLow, hreadHigh]

/-- A program with the registers `r` has been left with bytes pushed on its stack, and the processor
is at an instruction elsewhere. -/
structure Left (r : Registers) (b : Bus) (pushed : List UInt8) (n : Machine) : Prop where
  boundary : n.cpu.atBoundary = true
  registers : ∃ pc, n.registers = { r with sp := r.sp - UInt8.ofNat pushed.length, pc }
  stack : n.bus.stackTop n.registers.sp pushed.length = pushed.reverse
  memory : Bus.UsesStack r.sp pushed.length b n.bus
  transferPage : n.bus.transferPage = none

/-- The processor is at an instruction with the registers `r`, and apart from `count` bytes of the
stack memory and cartridge are those of `b`. -/
structure Resumes (r : Registers) (b : Bus) (count : Nat) (n : Machine) : Prop where
  boundary : n.cpu.atBoundary = true
  registers : n.registers = r
  memory : Bus.UsesStack r.sp count b n.bus

theorem left_of_pushAll {s n : Machine} {b : Bus} (bytes : List UInt8)
    (hlength : bytes.length ≤ 256) (hb : b.Aside s.bus) (hpage : b.transferPage = none)
    (hboundary : n.cpu.atBoundary = true) {p : Status}
    (hregisters : ∃ pc, n.registers = { (s.pushAll bytes).registers with p, pc })
    (hn : (s.pushAll bytes).bus.Aside n.bus) : Left { s.registers with p } b bytes n := by
  obtain ⟨pc, hregisters⟩ := hregisters
  obtain ⟨ram, hbus⟩ := s.bus_pushAll bytes
  have hsp : n.registers.sp = (s.pushAll bytes).registers.sp := by rw [hregisters]
  refine ⟨hboundary, ⟨pc, ?_⟩, ?_, .aside hb (s.usesStack_pushAll bytes) hn, ?_⟩
  · rw [hregisters, registers_pushAll]
  · rw [hsp, Bus.stackTop_congr hn.ram, stackTop_pushAll s bytes hlength]
  · rw [hn.transferPage, hbus]
    exact hb.transferPage.trans hpage

/-- A call, after its last cycle. -/
theorem left_call (hwork : IsHarmless work) (h : m.cpu.atBoundary = true)
    (hopcode : m.fetch.1 = 0x20) (hpage : m.bus.transferPage = none)
    (hquiet : (m.cyclesAmid work 5).bus.IsQuiet m.registers.p) :
    Left m.registers m.bus [highByte (m.registers.pc + 2), lowByte (m.registers.pc + 2)]
      (m.cyclesAmid work 6) := by
  have hop : m.decode.instruction.operation = .jsr := congrArg Opcode.operation hopcode
  have hmode : m.decode.instruction.mode = .absolute := congrArg Mode.ofOpcode hopcode
  have hcycles : m.decode.cycles = 5 + 1 := cycles_decode_of_fixed hopcode rfl rfl
  obtain ⟨hi, hregisters, hbus⟩ := acting_cyclesAmid hwork h hcycles
  rw [registers_decode, hmode] at hregisters
  have hpc : (m.cyclesAmid work 5).acting.registers.pc - 1 = m.registers.pc + 2 := by
    rw [hregisters]
    change m.registers.pc + 1 + 2 - 1 = _
    grind
  have heffect := execute_jsr (m := (m.cyclesAmid work 5).acting) hop
  rw [hpc] at heffect
  obtain ⟨ram, hpushed⟩ := (m.cyclesAmid work 5).acting.bus_pushAll
    [highByte (m.registers.pc + 2), lowByte (m.registers.pc + 2)]
  obtain ⟨hboundary, hend, haside⟩ := cyclesAmid_of_quiet hwork hi (by rw [hop]; decide) heffect
    (by rw [bus_jump, hpushed]; exact hbus.transferPage.trans hpage)
    (by rw [bus_jump, hpushed, hop, hregisters]; exact hquiet)
  rw [registers_jump, registers_pushAll] at hend
  have hleft := left_of_pushAll (n := m.cyclesAmid work 6) (p := m.registers.p)
    [highByte (m.registers.pc + 2), lowByte (m.registers.pc + 2)] (Nat.le_of_ble_eq_true rfl)
    hbus hpage hboundary
    ⟨m.decode.instruction.address, by rw [hend, registers_pushAll, hregisters]⟩ haside
  rw [hregisters] at hleft
  exact ⟨hleft.boundary, hleft.registers, hleft.stack, hleft.memory, hleft.transferPage⟩

/-- The entry of an interrupt, when its cycles are over. -/
theorem left_enterInterrupt {s n : Machine} {b : Bus} {vector : UInt16} {opcode : UInt8}
    (breakMark : Bool) (hvector : Region.ofAddress vector = .cartridge vector)
    (hnext : Region.ofAddress (vector + 1) = .cartridge (vector + 1))
    (hopcode : s.bus.slot.VectorsTo vector opcode) (hb : b.Aside s.bus)
    (hpage : b.transferPage = none) (hboundary : n.cpu.atBoundary = true)
    (hregisters : n.registers = (s.enterInterrupt vector breakMark).registers)
    (hn : (s.enterInterrupt vector breakMark).bus.Aside n.bus) :
    Left { s.registers with p := { s.registers.p with interruptDisable := true } } b
        [highByte s.registers.pc, lowByte s.registers.pc, s.registers.p.pushed breakMark] n ∧
      n.fetch.1 = opcode := by
  obtain ⟨target, henter, hregion, htarget⟩ :=
    enterInterrupt_of_vectorsTo breakMark hvector hnext hopcode
  rw [henter] at hregisters hn
  constructor
  · refine left_of_pushAll _ (Nat.le_of_ble_eq_true rfl) hb hpage hboundary ⟨target, ?_⟩ hn
    rw [hregisters, registers_jump, registers_suspended, registers_pushAll]
    rfl
  · obtain ⟨ram, hsuspended⟩ := s.bus_suspended breakMark
    have hpc : n.registers.pc = target := by rw [hregisters, registers_jump]
    have hslot : n.bus.slot = s.bus.slot := by rw [hn.slot, bus_jump, hsuspended]
    rw [fetch_of_readCpu? (by rw [hpc]; exact hregion) (by rw [hpc, hslot]; exact htarget)]

/-- A break, after its last cycle. The byte after its opcode is skipped. -/
theorem left_break (hwork : IsHarmless work) (h : m.cpu.atBoundary = true)
    (hopcode : m.fetch.1 = 0x00) (hpage : m.bus.transferPage = none) {opcode : UInt8}
    (hvector : m.bus.slot.VectorsTo Cpu.irqVector opcode)
    (hquiet : (m.cyclesAmid work 6).bus.IsQuiet m.registers.p) :
    Left { m.registers with
          pc := m.registers.pc + 2, p := { m.registers.p with interruptDisable := true } } m.bus
        [highByte (m.registers.pc + 2), lowByte (m.registers.pc + 2), m.registers.p.pushed true]
        (m.cyclesAmid work 7) ∧
      (m.cyclesAmid work 7).fetch.1 = opcode := by
  have hop : m.decode.instruction.operation = .brk := congrArg Opcode.operation hopcode
  have hmode : m.decode.instruction.mode = .implicit := congrArg Mode.ofOpcode hopcode
  have hcycles : m.decode.cycles = 6 + 1 := cycles_decode_of_fixed hopcode rfl rfl
  obtain ⟨hi, hregisters, hbus⟩ := acting_cyclesAmid hwork h hcycles
  have hbefore : (m.cyclesAmid work 6).acting.registers.p = m.registers.p := by
    rw [hregisters, registers_decode]
  obtain ⟨s, hs⟩ : ∃ s, s = (m.cyclesAmid work 6).acting.jump
      ((m.cyclesAmid work 6).acting.registers.pc + 1) := ⟨_, rfl⟩
  have heffect : (m.cyclesAmid work 6).acting.execute m.decode.instruction =
      s.enterInterrupt Cpu.irqVector true := by
    rw [execute, hop, hs]
  have hskip : s.registers = { m.registers with pc := m.registers.pc + 2 } := by
    have hpc : m.registers.pc + 1 + 0 + 1 = m.registers.pc + 2 := by grind
    rw [hs, registers_jump, hregisters, registers_decode, hmode]
    exact congrArg (fun pc ↦ { m.registers with pc }) hpc
  have hsame : m.bus.Aside s.bus := by
    rw [hs, bus_jump]
    exact hbus
  have hfound : s.bus.slot.VectorsTo Cpu.irqVector opcode := by
    rw [hsame.slot]
    exact hvector
  obtain ⟨target, henter, -, -⟩ := enterInterrupt_of_vectorsTo true rfl rfl hfound
  obtain ⟨ram, hsuspended⟩ := s.bus_suspended true
  have hlines : s.bus.lines = (m.cyclesAmid work 6).bus.lines := by
    rw [hs]
    rfl
  obtain ⟨hboundary, hend, haside⟩ := cyclesAmid_of_quiet hwork hi (by rw [hop]; decide) heffect
    (by rw [henter, bus_jump, hsuspended]; exact hsame.transferPage.trans hpage)
    (by rw [henter, bus_jump, hsuspended, hop, hbefore, hlines]; exact hquiet)
  obtain ⟨hleft, hnext⟩ := left_enterInterrupt (n := m.cyclesAmid work 7) true rfl rfl hfound
    hsame hpage hboundary hend haside
  rw [hskip] at hleft
  exact ⟨hleft, hnext⟩

/-- The entry of an interrupt at a completion, when its cycles are over. -/
theorem left_entering (hwork : IsHarmless work) {i : Instruction}
    {interrupt : Interrupt} (hi : m.completing? = some i) (henter : m.entering? = some interrupt)
    (htransfer : (m.settled i).cpu.transfer = none) {opcode : UInt8}
    (hvector : (m.settled i).bus.slot.VectorsTo (Cpu.vector interrupt) opcode) :
    Left { (m.settled i).registers with
          p := { (m.settled i).registers.p with interruptDisable := true } } (m.settled i).bus
        [highByte (m.settled i).registers.pc, lowByte (m.settled i).registers.pc,
          (m.settled i).registers.p.pushed false] (m.cyclesAmid work 8) ∧
      (m.cyclesAmid work 8).fetch.1 = opcode := by
  have hcycle := cycle_of_enters hi henter
  have hregion : Region.ofAddress (Cpu.vector interrupt) = .cartridge (Cpu.vector interrupt) ∧
      Region.ofAddress (Cpu.vector interrupt + 1) = .cartridge (Cpu.vector interrupt + 1) := by
    cases interrupt <;> exact ⟨rfl, rfl⟩
  obtain ⟨hboundary, hregisters, hbus⟩ := cyclesAmid_enter
    (m := ⟨m.cycle.cpu, work 0 m.cycle.bus⟩) (fun k b ↦ hwork (k + 1) b) 6
    (by rw [hcycle]; exact (transfer_enter _ _).trans htransfer)
    (by rw [hcycle]; exact phase_enter _ _)
  have hend : (m.cyclesAmid work 8).registers = m.cycle.registers := hregisters
  have hsame : m.cycle.bus.Aside (m.cyclesAmid work 8).bus := (hwork 0 _).trans hbus
  rw [hcycle, enter_eq] at hend hsame
  have hpage : (m.settled i).bus.transferPage = none := by
    obtain ⟨b, -, hb⟩ := m.bus_settled i
    rw [hb]
  exact left_enterInterrupt (s := (m.settled i).acknowledging interrupt) false hregion.1 hregion.2
    hvector ⟨⟨rfl, rfl, rfl⟩, rfl⟩ hpage hboundary hend hsame

/-! ## There and back -/

/-- A program that has been left for a subroutine goes on after the call. -/
theorem Left.resumes_call (hwork : IsHarmless work) {r : Registers} {b : Bus}
    {pc : UInt16} (h : Left r b [highByte pc, lowByte pc] m) (hopcode : m.fetch.1 = 0x60)
    (hquiet : (m.cyclesAmid work 5).bus.IsQuiet r.p) :
    Resumes { r with pc := pc + 1 } b 2 (m.cyclesAmid work 6) := by
  obtain ⟨target, hregisters⟩ := h.registers
  have hsp : r.sp - UInt8.ofNat 2 + 2 = r.sp := by
    change r.sp - 2 + 2 = r.sp
    grind
  obtain ⟨hboundary, hend, hbus⟩ := returns_from_call hwork h.boundary hopcode h.transferPage
    h.stack (by rw [hregisters]; exact hquiet)
  refine ⟨hboundary, hend.trans ?_, .aside (.refl b) h.memory hbus⟩
  rw [hregisters]
  change { r with sp := r.sp - UInt8.ofNat 2 + 2, pc := pc + 1 } = _
  rw [hsp]

/-- A program that has been left for an interrupt goes on where it was. -/
theorem Left.resumes_interrupt (hwork : IsHarmless work) {r : Registers}
    {b : Bus} {p : Status} {breakMark : Bool}
    (h : Left { r with p } b [highByte r.pc, lowByte r.pc, r.p.pushed breakMark] m)
    (hopcode : m.fetch.1 = 0x40) (hunused : r.p.unused = true) (hbreak : r.p.breakMark = false)
    (hquiet : (m.cyclesAmid work 5).bus.IsQuiet r.p) :
    Resumes r b 3 (m.cyclesAmid work 6) := by
  obtain ⟨target, hregisters⟩ := h.registers
  have hsp : r.sp - UInt8.ofNat 3 + 3 = r.sp := by
    change r.sp - 3 + 3 = r.sp
    grind
  obtain ⟨hboundary, hend, hbus⟩ := returns_from_interrupt hwork h.boundary hopcode
    h.transferPage h.stack hunused hbreak hquiet
  refine ⟨hboundary, hend.trans ?_, .aside (.refl b) h.memory hbus⟩
  rw [hregisters]
  change { r with sp := r.sp - UInt8.ofNat 3 + 3 } = _
  rw [hsp]

/-- Interrupts and calls leave no trace. An interrupt that is entered at a completion and returns at
once, a break that does, and a call that does, come back to the registers they have left and to the
address after them, as long as no transfer and no further interrupt comes in between; of memory they
change the bytes of the stack that they need. -/
theorem calls_leave_no_trace (m : Machine) (work : Nat → Bus → Bus)
    (hwork : IsHarmless work) :
    (∀ i interrupt, m.completing? = some i → m.entering? = some interrupt →
      (m.settled i).cpu.transfer = none →
      (m.settled i).registers.p.unused = true → (m.settled i).registers.p.breakMark = false →
      (m.settled i).bus.slot.VectorsTo (Cpu.vector interrupt) 0x40 →
      (m.cyclesAmid work 13).bus.IsQuiet (m.settled i).registers.p →
      Resumes (m.settled i).registers (m.settled i).bus 3 (m.cyclesAmid work 14)) ∧
    (m.cpu.atBoundary = true → m.fetch.1 = 0x00 → m.bus.transferPage = none →
      m.registers.p.unused = true → m.registers.p.breakMark = false →
      m.bus.slot.VectorsTo Cpu.irqVector 0x40 →
      (∀ k ∈ [6, 12], (m.cyclesAmid work k).bus.IsQuiet m.registers.p) →
      Resumes { m.registers with pc := m.registers.pc + 2 } m.bus 3 (m.cyclesAmid work 13)) ∧
    (m.cpu.atBoundary = true → m.fetch.1 = 0x20 → m.bus.transferPage = none →
      (m.cyclesAmid work 6).fetch.1 = 0x60 →
      (∀ k ∈ [5, 11], (m.cyclesAmid work k).bus.IsQuiet m.registers.p) →
      Resumes { m.registers with pc := m.registers.pc + 3 } m.bus 2 (m.cyclesAmid work 12)) ∧
    ∀ bytes : List UInt8, bytes.length ≤ 256 →
      ((m.pushAll bytes).pullMany bytes.length).1 = bytes.reverse ∧
        ((m.pushAll bytes).pullMany bytes.length).2.cpu = m.cpu ∧
        Bus.UsesStack m.registers.sp bytes.length m.bus
          ((m.pushAll bytes).pullMany bytes.length).2.bus := by
  refine ⟨?_, ?_, ?_, fun bytes ↦ m.pullMany_pushAll bytes⟩
  · intro i interrupt hi henter htransfer hunused hbreak hvector hquiet
    obtain ⟨hleft, hopcode⟩ := left_entering hwork hi henter htransfer hvector
    rw [show 14 = 8 + 6 from rfl, cyclesAmid_add]
    rw [show 13 = 8 + 5 from rfl, cyclesAmid_add] at hquiet
    exact hleft.resumes_interrupt (hwork.drop 8) hopcode hunused hbreak hquiet
  · intro h hopcode hpage hunused hbreak hvector hquiet
    obtain ⟨hleft, hnext⟩ := left_break hwork h hopcode hpage hvector (hquiet 6 (by decide))
    have hend := hquiet 12 (by decide)
    rw [show 13 = 7 + 6 from rfl, cyclesAmid_add]
    rw [show 12 = 7 + 5 from rfl, cyclesAmid_add] at hend
    exact Left.resumes_interrupt (r := { m.registers with pc := m.registers.pc + 2 })
      (hwork.drop 7) hleft hnext hunused hbreak hend
  · intro h hopcode hpage hreturn hquiet
    have hleft := left_call hwork h hopcode hpage (hquiet 5 (by decide))
    have hend := hquiet 11 (by decide)
    rw [show 12 = 6 + 6 from rfl, cyclesAmid_add]
    rw [show 11 = 6 + 5 from rfl, cyclesAmid_add] at hend
    have hpc : m.registers.pc + 3 = m.registers.pc + 2 + 1 := by grind
    rw [hpc]
    exact hleft.resumes_call (hwork.drop 6) hreturn hend

/-- A cartridge that holds the word `$8040` throughout, which is the address of a return from an
interrupt there. -/
def returnSlot : Slot := .holding (.assemble .nrom #[0x40, 0x80] #[] .horizontal false)

theorem vectorsTo_returnSlot :
    returnSlot.VectorsTo Cpu.nmiVector 0x40 ∧ returnSlot.VectorsTo Cpu.irqVector 0x40 :=
  ⟨⟨0x40, 0x80, rfl, rfl, rfl, rfl⟩, ⟨0x40, 0x80, rfl, rfl, rfl, rfl⟩⟩

/-- A machine with that cartridge and an opcode at the start of memory. What follows it is the
address of a return from a subroutine. -/
def returning (opcode : UInt8) (lines : Lines) : Machine :=
  ⟨{},
    { (Bus.powerOn .ntsc returnSlot).writeAll [(0, opcode), (1, 0x10), (0x10, 0x60)] with lines }⟩

/-- An interrupt after an instruction that does nothing, a break, and a call, with the chips
running. -/
theorem calls_leave_no_trace_returning :
    Resumes ((returning 0xea { nmi := true }).cycle.settled ⟨.nop, .implicit, 0, false⟩).registers
        ((returning 0xea { nmi := true }).cycle.settled ⟨.nop, .implicit, 0, false⟩).bus 3
        ((returning 0xea { nmi := true }).cycle.cyclesAmid (fun _ ↦ Bus.clockChips) 14) ∧
      Resumes { (returning 0x00 {}).registers with pc := 2 } (returning 0x00 {}).bus 3
        ((returning 0x00 {}).cyclesAmid (fun _ ↦ Bus.clockChips) 13) ∧
      Resumes { (returning 0x20 {}).registers with pc := 3 } (returning 0x20 {}).bus 2
        ((returning 0x20 {}).cyclesAmid (fun _ ↦ Bus.clockChips) 12) := by
  obtain ⟨hinterrupt, -, -, -⟩ :=
    calls_leave_no_trace (returning 0xea { nmi := true }).cycle _ isHarmless_clockChips
  obtain ⟨-, hbreak, -, -⟩ := calls_leave_no_trace (returning 0x00 {}) _ isHarmless_clockChips
  obtain ⟨-, -, hcall, -⟩ := calls_leave_no_trace (returning 0x20 {}) _ isHarmless_clockChips
  refine ⟨?_, ?_, ?_⟩
  · exact hinterrupt _ .nmi rfl rfl rfl rfl rfl vectorsTo_returnSlot.1 (by decide +kernel)
  · exact hbreak rfl rfl rfl rfl rfl vectorsTo_returnSlot.2 (by decide +kernel)
  · exact hcall rfl rfl rfl (by decide +kernel) (by decide +kernel)

end Machine

end Famicom
