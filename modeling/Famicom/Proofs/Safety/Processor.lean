import Famicom.Proofs.Console.Nmi
import Famicom.Proofs.Machine.Instruction
import Famicom.Proofs.Safety.Bus

/-!
# The processor does not crash

The checks of a processor cycle, whatever program it runs: those of the bus accesses an instruction
is made of, of the sum of an addition, of the count of cycles, and the branch that no instruction
without an operand may take. Code may run from anywhere, so nothing is known of the bytes that are
fetched. What is known is the decoding: no opcode that reads an operand has the implicit mode
(`Opcode.mode_ne_implicit`), and an instruction in progress has come from an opcode.

A count of cycles that grows by steps is checked at its end, where it is largest. The trace of
instructions is not part of a cycle.
-/

namespace Famicom

open Check

/-! ## Decoding -/

/-- The operation reads an operand and changes registers or the operand. -/
def Operation.readsOperand : Operation → Bool
  | load _ | modify _ => true
  | _ => false

/-- The fields of an opcode that reads an operand give a mode that has one. -/
theorem Opcode.mode_ne_implicit {opcode : UInt8}
    (h : (Opcode.operation opcode).readsOperand = true) : Mode.ofOpcode opcode ≠ .implicit := by
  have hall : ∀ n : Fin 256, (operations[low4 (n.val / 16)][low4 n.val]).readsOperand = true →
      (OpcodeFields.mk (low2 n.val) (low3 (n.val / 4)) (low3 (n.val / 32))).addressing ≠
        .implicit := by decide +kernel
  exact hall ⟨opcode.toNat, opcode.toNat_lt⟩ h

/-- An instruction that reads an operand has one. -/
def Instruction.IsDecoded (i : Instruction) : Prop :=
  i.operation.readsOperand = true → i.mode ≠ .implicit

theorem Instruction.two_le_cycles (i : Instruction) (opcode : UInt8) (p : Status) :
    2 ≤ i.cycles opcode p := by
  have base := Machine.two_le_opcodeCycles opcode
  unfold cycles
  dsimp only
  omega

/-- There are cycles left in a phase that waits for them. -/
def Phase.IsSound : Phase → Prop
  | .execute i left => 0 < left ∧ i.IsDecoded
  | .enter left | .stall left => 0 < left
  | .fetch | .jammed => True

/-! ## Arithmetic -/

namespace Registers

/-- The checks of an addition. -/
def addChecks (r : Registers) (value : UInt8) : List Check :=
  [.fits .w16 (r.a.toNat + value.toNat), .fits .w16 (r.a.toNat + value.toNat + r.carryIn)]

/-- The checks of the effect on an operand that has been read. -/
def loadChecks (r : Registers) (op : LoadOp) (value : UInt8) : List Check :=
  match op with
  | .adc => r.addChecks value
  | .sbc => r.addChecks (~~~value)
  | _ => []

/-- The checks of the effect on an operand that is changed in place, beyond the change. -/
def modifyChecks (r : Registers) (op : ModifyOp) (value : UInt8) : List Check :=
  match op with
  | .rra => (r.shiftRight value r.carryIn).2.addChecks (r.shiftRight value r.carryIn).1
  | .isc => r.addChecks (~~~(value + 1))
  | _ => []

theorem allPass_addChecks (r : Registers) (value : UInt8) : AllPass (r.addChecks value) := by
  have accumulator := r.a.toNat_lt
  have byte := value.toNat_lt
  have carry : r.carryIn ≤ 1 := Bool.toNat_le r.p.carry
  simp only [addChecks, allPass_cons, passes_fits, allPass_nil, and_true, Width.limit]
  omega

theorem allPass_loadChecks (r : Registers) (op : LoadOp) (value : UInt8) :
    AllPass (r.loadChecks op value) := by
  unfold loadChecks
  split
  · exact r.allPass_addChecks value
  · exact r.allPass_addChecks _
  · exact allPass_nil

theorem allPass_modifyChecks (r : Registers) (op : ModifyOp) (value : UInt8) :
    AllPass (r.modifyChecks op value) := by
  unfold modifyChecks
  split
  · exact allPass_addChecks _ _
  · exact r.allPass_addChecks _
  · exact allPass_nil

end Registers

/-! ## Accesses -/

namespace Machine

section

variable (m : Machine)

/-- The checks of fetching a byte. -/
def fetchChecks : List Check := m.bus.readChecks m.registers.pc

/-- The checks of fetching a word. -/
def fetchWordChecks : List Check := m.fetchChecks ++ m.fetch.2.fetchChecks

/-- The checks of pushing a byte. -/
def pushChecks (value : UInt8) : List Check :=
  m.bus.writeChecks (stackAddress m.registers.sp) value

/-- The checks of pushing a word. -/
def pushWordChecks (value : UInt16) : List Check :=
  m.pushChecks (highByte value) ++ (m.push (highByte value)).pushChecks (lowByte value)

/-- The checks of pulling a byte. -/
def pullChecks : List Check := m.bus.readChecks (stackAddress (m.registers.sp + 1))

/-- The checks of pulling a word. -/
def pullWordChecks : List Check := m.pullChecks ++ m.pull.2.pullChecks

/-- The checks of suspending the program and going on at the address in a vector. -/
def enterInterruptChecks (vector : UInt16) (breakMark : Bool) : List Check :=
  m.pushWordChecks m.registers.pc ++
  (m.pushWord m.registers.pc).pushChecks (m.registers.p.pushed breakMark) ++
  (m.suspended breakMark).bus.readWordChecks vector

/-- The checks of resolving an operand. -/
def resolveChecks (mode : Mode) : List Check :=
  match mode with
  | .implicit | .accumulator | .immediate => []
  | .zeroPage | .zeroPageX | .zeroPageY | .relative => m.fetchChecks
  | .absolute | .absoluteX | .absoluteY => m.fetchWordChecks
  | .indirect => m.fetchWordChecks ++ m.fetchWord.2.bus.readWordInPageChecks m.fetchWord.1
  | .indirectX =>
    m.fetchChecks ++
    m.fetch.2.bus.readWordInPageChecks (m.fetch.1 + m.fetch.2.registers.x).toUInt16
  | .indirectY => m.fetchChecks ++ m.fetch.2.bus.readWordInPageChecks m.fetch.1.toUInt16

/-! ## Instructions -/

/-- The checks of finding the byte that an instruction works on. -/
def operandChecks (i : Instruction) : List Check :=
  .impossible (i.mode == .implicit) ::
    match i.mode with
    | .accumulator => []
    | _ => m.bus.readChecks i.address

/-- The checks of putting that byte back. -/
def putBackChecks (i : Instruction) (value : UInt8) : List Check :=
  match i.mode with
  | .accumulator => []
  | _ => m.bus.writeChecks i.address value

/-- The checks of the effect of an instruction. -/
def executeChecks (i : Instruction) : List Check :=
  match i.operation with
  | .load op =>
    m.operandChecks i ++ (m.operand i).2.registers.loadChecks op (m.operand i).1
  | .store op => m.bus.writeChecks i.address (m.registers.stored op)
  | .storeHigh op =>
    let (addr, value) := combineHigh i (m.registers.storedHigh op)
    m.bus.writeChecks addr value
  | .modify op =>
    let (value, m') := m.operand i
    let (result, registers) := m'.registers.modify op value
    m.operandChecks i ++ (m'.modifyRegisters fun _ ↦ registers).putBackChecks i result ++
      m'.registers.modifyChecks op value
  | .nop =>
    match i.mode with
    | .implicit | .immediate => []
    | _ => m.bus.readChecks i.address
  | .pha => m.pushChecks m.registers.a
  | .php => m.pushChecks (m.registers.p.pushed true)
  | .pla | .plp => m.pullChecks
  | .jsr => m.pushWordChecks (m.registers.pc - 1)
  | .rts => m.pullWordChecks
  | .rti => m.pullChecks ++ m.pullStatus.pullWordChecks
  | .brk => (m.jump (m.registers.pc + 1)).enterInterruptChecks Cpu.irqVector true
  | .register _ | .branch _ | .jmp | .jam => []

/-- The instruction that an opcode and its operand make. -/
def decoded (opcode : UInt8) : Instruction :=
  let operand := (m.resolve (Mode.ofOpcode opcode)).1
  ⟨Opcode.operation opcode, Mode.ofOpcode opcode, operand.address, operand.pageCrossed⟩

/-- The checks of starting an instruction. -/
def startChecks (opcode : UInt8) : List Check :=
  let cycles :=
    (m.decoded opcode).cycles opcode (m.resolve (Mode.ofOpcode opcode)).2.registers.p
  .index 256 opcode.toNat :: m.resolveChecks (Mode.ofOpcode opcode) ++
    [.fits .w8 cycles, .subtract cycles 1]

/-- The checks of looking at the interrupt lines. -/
def pollChecks (masked : Bool) : List Check :=
  match m.bus.lines.accepted? masked with
  | some interrupt =>
    (m.acknowledging interrupt).enterInterruptChecks (Cpu.vector interrupt) false
  | none => []

/-- The checks of the last cycle of an instruction. -/
def completeChecks (i : Instruction) : List Check :=
  (m.setPhase .fetch).executeChecks i ++
    if i.operation = .jam then []
    else
      (m.settle i).pollChecks (i.operation.isMasked m.registers.p (m.settle i).registers.p)

/-- The checks of a cycle of a sprite transfer. -/
def transferChecks (t : Transfer) : List Check :=
  if 0 < t.idle then [.subtract t.idle 1]
  else
    (if t.step % 2 = 0 then m.bus.readChecks t.source
      else m.bus.writeChecks Transfer.target t.data) ++
    [.fits .w16 (t.step + 1)]

/-- The checks of moving the phase on. -/
def phaseChecks (phase : Phase) : List Check :=
  match phase with
  | .fetch => m.fetchChecks ++ m.fetch.2.startChecks m.fetch.1
  | .execute i left => .subtract left 1 :: if 1 < left then [] else m.completeChecks i
  | .enter left | .stall left => [.subtract left 1]
  | .jammed => []

/-- The checks of a processor cycle. -/
def cycleChecks : List Check :=
  .fits .w64 (m.cpu.cycles + 1) ::
    match m.cpu.transfer with
    | some t => m.countCycle.transferChecks t
    | none => m.countCycle.phaseChecks m.cpu.phase

/-- The checks of a processor cycle and of the cycle of the sound chip that goes with it. -/
def sharedChecks : List Check := m.cycleChecks ++ m.cycle.bus.apu.clockChecks

end

end Machine

theorem Bus.AccessesTo.isSafe {b c : Bus} (h : b.AccessesTo c) (hb : b.IsSafe) : c.IsSafe :=
  h.preserves (P := IsSafe) (fun _ addr h ↦ IsSafe.read h addr)
    (fun _ addr value h ↦ IsSafe.write h addr value) hb

theorem Bus.AccessesTo.isWhole {b c : Bus} (h : b.AccessesTo c) (hb : b.IsWhole) : c.IsWhole :=
  h.preserves (P := IsWhole) (fun _ addr h ↦ IsWhole.read h addr)
    (fun _ addr value h ↦ IsWhole.write h addr value) hb

namespace Machine

variable {m : Machine}

/-! ## The accesses pass -/

section

variable (h : m.bus.IsSafe)

include h

theorem allPass_fetchChecks : AllPass m.fetchChecks := h.allPass_readChecks _

theorem allPass_fetchWordChecks : AllPass m.fetchWordChecks :=
  (allPass_fetchChecks h).append (allPass_fetchChecks (m.reads_fetch.accesses.bus.isSafe h))

theorem allPass_pushChecks (value : UInt8) : AllPass (m.pushChecks value) :=
  h.allPass_writeChecks _ value

theorem allPass_pushWordChecks (value : UInt16) : AllPass (m.pushWordChecks value) :=
  (allPass_pushChecks h _).append (allPass_pushChecks ((m.accesses_push _).bus.isSafe h) _)

theorem allPass_pullChecks : AllPass m.pullChecks := h.allPass_readChecks _

theorem allPass_pullWordChecks : AllPass m.pullWordChecks :=
  (allPass_pullChecks h).append (allPass_pullChecks (m.reads_pull.accesses.bus.isSafe h))

theorem allPass_enterInterruptChecks (vector : UInt16) (breakMark : Bool) :
    AllPass (m.enterInterruptChecks vector breakMark) :=
  ((allPass_pushWordChecks h _).append
    (allPass_pushChecks ((m.accesses_pushWord _).bus.isSafe h) _)).append
    (((m.accesses_suspended breakMark).bus.isSafe h).allPass_readWordChecks vector)

theorem allPass_resolveChecks (mode : Mode) : AllPass (m.resolveChecks mode) := by
  have fetched := m.reads_fetch.accesses.bus.isSafe h
  have fetchedWord := m.reads_fetchWord.accesses.bus.isSafe h
  cases mode with
  | implicit | accumulator | immediate => exact allPass_nil
  | zeroPage | zeroPageX | zeroPageY | relative => exact allPass_fetchChecks h
  | absolute | absoluteX | absoluteY => exact allPass_fetchWordChecks h
  | indirect =>
    exact (allPass_fetchWordChecks h).append (fetchedWord.allPass_readWordInPageChecks _)
  | indirectX | indirectY =>
    exact (allPass_fetchChecks h).append (fetched.allPass_readWordInPageChecks _)

theorem allPass_operandChecks {i : Instruction} (hmode : i.mode ≠ .implicit) :
    AllPass (m.operandChecks i) := by
  refine allPass_cons.mpr ⟨beq_eq_false_iff_ne.mpr hmode, ?_⟩
  split
  · exact allPass_nil
  · exact h.allPass_readChecks _

theorem allPass_putBackChecks (i : Instruction) (value : UInt8) :
    AllPass (m.putBackChecks i value) := by
  unfold putBackChecks
  split
  · exact allPass_nil
  · exact h.allPass_writeChecks _ value

theorem allPass_executeChecks {i : Instruction} (hdecoded : i.IsDecoded) :
    AllPass (m.executeChecks i) := by
  have hoperand : (m.operand i).2.bus.IsSafe := (m.reads_operand i).accesses.bus.isSafe h
  unfold Instruction.IsDecoded at hdecoded
  unfold executeChecks
  cases hoperation : i.operation with
  | load op =>
    rw [hoperation] at hdecoded
    exact (allPass_operandChecks h (hdecoded rfl)).append
      (Registers.allPass_loadChecks _ op _)
  | store op => exact h.allPass_writeChecks _ _
  | storeHigh op => exact h.allPass_writeChecks _ _
  | modify op =>
    rw [hoperation] at hdecoded
    exact ((allPass_operandChecks h (hdecoded rfl)).append
      (allPass_putBackChecks hoperand i _)).append (Registers.allPass_modifyChecks _ op _)
  | nop =>
    dsimp only
    split
    · exact allPass_nil
    · exact allPass_nil
    · exact h.allPass_readChecks _
  | pha => exact allPass_pushChecks h _
  | php => exact allPass_pushChecks h _
  | pla | plp => exact allPass_pullChecks h
  | jsr => exact allPass_pushWordChecks h _
  | rts => exact allPass_pullWordChecks h
  | rti =>
    exact (allPass_pullChecks h).append
      (allPass_pullWordChecks (m.reads_pullStatus.accesses.bus.isSafe h))
  | brk => exact allPass_enterInterruptChecks ((m.reads_jump _).accesses.bus.isSafe h) _ true
  | register op | branch op => exact allPass_nil
  | jmp | jam => exact allPass_nil

theorem allPass_startChecks (opcode : UInt8) : AllPass (m.startChecks opcode) := by
  have most := (m.decoded opcode).cycles_le opcode
    (m.resolve (Mode.ofOpcode opcode)).2.registers.p
  have least := (m.decoded opcode).two_le_cycles opcode
    (m.resolve (Mode.ofOpcode opcode)).2.registers.p
  have byte : (index 256 opcode.toNat).Passes := opcode.toNat_lt
  refine (allPass_cons.mpr ⟨byte, allPass_resolveChecks h _⟩).append ?_
  simp only [allPass_cons, passes_fits, passes_subtract, allPass_nil, and_true, Width.limit]
  omega

theorem isSafe_settle (i : Instruction) : (m.settle i).bus.IsSafe := by
  have hexecuted := (accesses_execute (m.setPhase .fetch) i).bus.isSafe h
  rw [settle, bus_beginTransfer]
  exact hexecuted.withTransferPage none

theorem isSafe_acknowledging (interrupt : Interrupt) : (m.acknowledging interrupt).bus.IsSafe :=
  h.withLines _

theorem allPass_pollChecks (masked : Bool) : AllPass (m.pollChecks masked) := by
  unfold pollChecks
  split
  · exact allPass_enterInterruptChecks (isSafe_acknowledging h _) _ false
  · exact allPass_nil

theorem allPass_completeChecks {i : Instruction} (hdecoded : i.IsDecoded) :
    AllPass (m.completeChecks i) := by
  have hfetch : (m.setPhase .fetch).bus.IsSafe := h
  exact (allPass_executeChecks hfetch hdecoded).append
    (allPass_unless fun _ ↦ allPass_pollChecks (isSafe_settle h i) _)

theorem allPass_transferChecks {t : Transfer} (hstep : t.step < Transfer.steps) :
    AllPass (m.transferChecks t) := by
  rw [Transfer.steps] at hstep
  refine allPass_ite.mpr ⟨fun hidle ↦ allPass_singleton.mpr hidle, fun _ ↦ AllPass.append ?_ ?_⟩
  · exact allPass_ite.mpr ⟨fun _ ↦ h.allPass_readChecks _, fun _ ↦ h.allPass_writeChecks _ _⟩
  · refine allPass_singleton.mpr ?_
    rw [passes_fits, Width.limit]
    omega

theorem allPass_phaseChecks {phase : Phase} (hphase : phase.IsSound) :
    AllPass (m.phaseChecks phase) := by
  cases phase with
  | fetch =>
    exact (allPass_fetchChecks h).append
      (allPass_startChecks (m.reads_fetch.accesses.bus.isSafe h) _)
  | execute i left =>
    obtain ⟨hleft, hdecoded⟩ := hphase
    exact allPass_cons.mpr ⟨hleft, allPass_unless fun _ ↦ allPass_completeChecks h hdecoded⟩
  | enter left | stall left => exact allPass_singleton.mpr hphase
  | jammed => exact allPass_nil

end

/-! ## Every cycle passes -/

/-- The bus is safe, and the phase and the transfer of the processor are ones that it comes to. -/
structure IsSafe (m : Machine) : Prop where
  bus : m.bus.IsSafe
  prompt : m.IsPrompt
  phase : m.cpu.phase.IsSound

theorem isSound_start (m : Machine) (opcode : UInt8) : (m.start opcode).cpu.phase.IsSound := by
  refine ⟨?_, fun h ↦ Opcode.mode_ne_implicit h⟩
  exact Nat.sub_pos_of_lt (Instruction.two_le_cycles _ opcode _)

theorem isSound_complete {m : Machine} (i : Instruction) : (m.complete i).cpu.phase.IsSound := by
  have hsettled : (m.settle i).cpu.phase = .fetch := by
    rw [settle, phase_beginTransfer, (accesses_execute _ i).phase, phase_setPhase]
  rw [complete_eq]
  split
  · trivial
  · rw [poll]
    split
    · rw [phase_enter]
      exact Nat.zero_lt_succ _
    · rw [hsettled]
      trivial

namespace IsSafe

theorem isSound_cycle (h : m.IsSafe) : m.cycle.cpu.phase.IsSound := by
  have hphase := h.phase
  cases htransfer : m.cpu.transfer with
  | some t =>
    rw [cycle_of_transfer htransfer, phase_stepTransfer]
    exact hphase
  | none =>
    cases hcase : m.cpu.phase with
    | fetch =>
      rw [cycle_of_fetch htransfer hcase]
      exact isSound_start _ _
    | execute i left =>
      rw [hcase] at hphase
      rcases Nat.lt_or_ge 1 left with hleft | hleft
      · rw [cycle_of_waiting htransfer hcase hleft]
        exact ⟨Nat.sub_pos_of_lt hleft, hphase.2⟩
      · rw [cycle_of_completing htransfer hcase hleft]
        exact isSound_complete i
    | enter left =>
      rw [cycle_of_enter htransfer hcase, phase_setPhase]
      split
      · exact Nat.sub_pos_of_lt ‹_›
      · trivial
    | stall left =>
      rw [cycle_of_stall htransfer hcase, phase_setPhase]
      split
      · exact Nat.sub_pos_of_lt ‹_›
      · trivial
    | jammed =>
      rw [cycle_of_jammed htransfer hcase]
      exact hphase

end IsSafe

/-- What accesses keep, and the acknowledgement of an interrupt and the start of a transfer too, a
cycle keeps. -/
theorem cycle_preserves {P : Bus → Prop} (haccesses : ∀ {b c : Bus}, b.AccessesTo c → P b → P c)
    (hlines : ∀ (b : Bus) (lines : Lines), P b → P { b with lines })
    (htransfer : ∀ b : Bus, P b → P { b with transferPage := none }) (hm : P m.bus) :
    P m.cycle.bus := by
  have hsettled (i : Instruction) : P (m.settled i).bus := by
    obtain ⟨b, hb, hbus⟩ := m.bus_settled i
    rw [hbus]
    exact htransfer b (haccesses hb hm)
  rcases cycle_cases m with ⟨-, -, hidles⟩ | ⟨i, -, ⟨-, -, hcycle⟩ | ⟨-, -, hcycle⟩⟩
  · exact haccesses hidles.accesses hm
  · rw [hcycle]
    exact hsettled i
  · rw [hcycle]
    cases m.entering? with
    | none => exact hsettled i
    | some interrupt =>
      dsimp only
      rw [enter_eq, bus_setPhase]
      exact haccesses (accesses_enterInterrupt _ _ _).bus (hlines _ _ (hsettled i))

theorem isWhole_cycle (h : m.bus.IsWhole) : m.cycle.bus.IsWhole :=
  cycle_preserves (P := Bus.IsWhole) (fun haccesses hb ↦ haccesses.isWhole hb)
    (fun _ lines hb ↦ hb.withLines lines) (fun _ hb ↦ hb.withTransferPage none) h

theorem isWhole_sharedCycle (h : m.bus.IsWhole) : m.sharedCycle.bus.IsWhole :=
  (isWhole_cycle h).clockSound

namespace IsSafe

theorem bus_cycle (h : m.IsSafe) : m.cycle.bus.IsSafe :=
  cycle_preserves (P := Bus.IsSafe) (fun haccesses hb ↦ haccesses.isSafe hb)
    (fun _ lines hb ↦ hb.withLines lines) (fun _ hb ↦ hb.withTransferPage none) h.bus

theorem sharedCycle (h : m.IsSafe) : m.sharedCycle.IsSafe where
  bus := h.bus_cycle.clockSound
  prompt := h.prompt.sharedCycle
  phase := h.isSound_cycle

theorem allPass_cycleChecks (h : m.IsSafe) (hcycles : m.cpu.cycles + 1 < Width.w64.limit) :
    AllPass m.cycleChecks := by
  have hcounted : m.countCycle.bus.IsSafe := h.bus
  refine allPass_cons.mpr ⟨hcycles, ?_⟩
  split
  case h_1 t htransfer => exact allPass_transferChecks hcounted (h.prompt.step_lt t htransfer)
  case h_2 => exact allPass_phaseChecks hcounted h.phase

theorem allPass_sharedChecks (h : m.IsSafe) (hcycles : m.cpu.cycles + 1 < Width.w64.limit) :
    AllPass m.sharedChecks :=
  (h.allPass_cycleChecks hcycles).append h.bus_cycle.apu.allPass_clockChecks

end IsSafe

end Machine

end Famicom
