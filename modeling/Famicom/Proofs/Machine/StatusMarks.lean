import Famicom.Proofs.Machine.Return

/-!
# The marks of the status register

Two of the eight bits of the status are no flags. Inside the processor they never change: the unused
bit is set and the break mark is clear (`Status.IsMarked`). On the stack the break mark tells a
routine how it has been reached,

```text
php, brk    flags with bits 4 and 5 set,
nmi, irq    flags with bit 5 set and bit 4 clear,
```

and the other six bits are those of the status that was left, its interrupt mask not yet set.

A program can put any byte on the stack and pull it as a status. That is the one place where the two
bits could come into the processor, and pulling does not take them from the byte. All other
operations set single flags and keep the marks as they find them, which is one case for each class
of operations.

Of what is pushed, the statements speak by the place in memory where it is found after the cycle. An
interrupt that is entered in the same cycle pushes below it.
-/

namespace Famicom

namespace Status

/-- The two bits that are no flags are as the processor keeps them. -/
structure IsMarked (s : Status) : Prop where
  unused : s.unused = true
  breakMark : s.breakMark = false

/-- A byte is `s` as it is pushed: bit 5 is set, bit 4 is the break mark, and the rest are flags. -/
structure IsPushedAs (s : Status) (mark : Bool) (b : UInt8) : Prop where
  unused : bit b 5 = true
  breakMark : bit b 4 = mark
  flags : ∀ n < 8, n ≠ 4 → n ≠ 5 → bit b n = bit s.toByte n

variable {s : Status}

theorem isMarked_powerOn : powerOn.IsMarked := ⟨rfl, rfl⟩

theorem isMarked_pulled (b : UInt8) : (pulled b).IsMarked := ⟨rfl, rfl⟩

theorem IsMarked.withResult (h : s.IsMarked) (value : UInt8) : (s.withResult value).IsMarked :=
  ⟨h.unused, h.breakMark⟩

theorem IsMarked.disable (h : s.IsMarked) : { s with interruptDisable := true }.IsMarked :=
  ⟨h.unused, h.breakMark⟩

/-- What is pushed is the status, with the marks that exist only there. -/
theorem isPushedAs_pushed (s : Status) (mark : Bool) : s.IsPushedAs mark (s.pushed mark) := by
  have hbyte : ofByte (s.pushed mark) = { s with unused := true, breakMark := mark } :=
    ofByte_toByte _
  have hflag (flag : Status → Bool)
      (hsame : flag { s with unused := true, breakMark := mark } = flag s) :
      flag (ofByte (s.pushed mark)) = flag (ofByte s.toByte) := by
    rw [hbyte, hsame, ofByte_toByte]
  refine ⟨congrArg Status.unused hbyte, congrArg Status.breakMark hbyte, ?_⟩
  intro n hn hbreak hunused
  have hplace : n = 0 ∨ n = 1 ∨ n = 2 ∨ n = 3 ∨ n = 6 ∨ n = 7 := by omega
  rcases hplace with rfl | rfl | rfl | rfl | rfl | rfl
  · exact hflag carry rfl
  · exact hflag zero rfl
  · exact hflag interruptDisable rfl
  · exact hflag decimal rfl
  · exact hflag overflow rfl
  · exact hflag negative rfl

theorem IsMarked.bits (h : s.IsMarked) : bit s.toByte 5 = true ∧ bit s.toByte 4 = false :=
  ⟨(congrArg Status.unused s.ofByte_toByte).trans h.unused,
    (congrArg Status.breakMark s.ofByte_toByte).trans h.breakMark⟩

end Status

/-! ## Operations keep the marks -/

namespace Registers

variable {r : Registers}

theorem isMarked_load (h : r.p.IsMarked) (op : LoadOp) (value : UInt8) :
    (r.load op value).p.IsMarked := by
  cases op <;> exact ⟨h.unused, h.breakMark⟩

theorem isMarked_modify (h : r.p.IsMarked) (op : ModifyOp) (value : UInt8) :
    (r.modify op value).2.p.IsMarked := by
  cases op <;> exact ⟨h.unused, h.breakMark⟩

theorem isMarked_transfer (h : r.p.IsMarked) (op : RegisterOp) : (r.transfer op).p.IsMarked := by
  cases op <;> exact ⟨h.unused, h.breakMark⟩

end Registers

theorem Bus.stackByte_congr {b c : Bus} (h : c.ram = b.ram) (sp : UInt8) :
    c.stackByte sp = b.stackByte sp := by rw [stackByte, stackByte, h]

namespace Machine

variable {m : Machine} {i : Instruction}

theorem p_putBack (m : Machine) (i : Instruction) (value : UInt8) :
    (m.putBack i value).registers.p = m.registers.p := by
  unfold putBack
  split <;> rfl

/-- Only the pulls bring a status in from outside, and they bring it marked. -/
theorem isMarked_execute (h : m.registers.p.IsMarked) (i : Instruction) :
    (m.execute i).registers.p.IsMarked := by
  have hoperand : (m.operand i).2.registers.p.IsMarked := by
    rw [registers_operand]
    exact h
  unfold execute
  cases i.operation with
  | load op => exact Registers.isMarked_load hoperand op _
  | store op => exact h
  | storeHigh op => cases op <;> exact h
  | modify op =>
    dsimp only
    rw [p_putBack]
    exact Registers.isMarked_modify hoperand op _
  | register op => exact Registers.isMarked_transfer h op
  | branch op =>
    dsimp only
    split
    · exact h
    · exact h
  | nop =>
    dsimp only
    split
    · exact h
    · exact h
    · exact h
  | pha | php | jmp | jsr | rts | jam => exact h
  | pla => exact h.withResult _
  | plp | rti => exact Status.isMarked_pulled _
  | brk => exact h.disable

theorem isMarked_settled (h : m.registers.p.IsMarked) (i : Instruction) :
    (m.settled i).registers.p.IsMarked := by
  rw [settled, settle, registers_beginTransfer]
  exact isMarked_execute (m := m.countCycle.setPhase .fetch) h i

theorem p_enter (m : Machine) (interrupt : Interrupt) :
    (m.enter interrupt).registers.p = { m.registers.p with interruptDisable := true } := rfl

/-- Every cycle keeps the marks. -/
theorem isMarked_cycle (h : m.registers.p.IsMarked) : m.cycle.registers.p.IsMarked := by
  cases hcompleting : m.completing? with
  | some i =>
    by_cases hjam : i.operation = .jam
    · rw [cycle_of_jamming hcompleting hjam]
      exact isMarked_settled h i
    · rw [cycle_of_entering hcompleting hjam]
      cases m.entering? with
      | none => exact isMarked_settled h i
      | some interrupt => exact (isMarked_settled h i).disable
  | none =>
    cases htransfer : m.cpu.transfer with
    | some t =>
      rw [cycle_of_transfer htransfer, stepTransfer_eq]
      exact h
    | none =>
      cases hphase : m.cpu.phase with
      | fetch =>
        rw [cycle_of_atBoundary (Cpu.atBoundary_iff.mpr ⟨hphase, htransfer⟩)]
        change m.decode.machine.registers.p.IsMarked
        rw [registers_decode]
        exact h
      | execute i left =>
        rw [cycle_of_waiting htransfer hphase (one_lt_of_waiting hcompleting htransfer hphase)]
        exact h
      | enter left => rw [cycle_of_enter htransfer hphase]; exact h
      | stall left => rw [cycle_of_stall htransfer hphase]; exact h
      | jammed => rw [cycle_of_jammed htransfer hphase]; exact h

theorem isMarked_resetCpu (h : m.registers.p.IsMarked) (powerCycle : Bool) :
    (m.resetCpu powerCycle).registers.p.IsMarked := by
  cases powerCycle with
  | true => exact Status.isMarked_powerOn
  | false => exact h.disable

/-- In every machine that has come from power-on the status is marked. -/
theorem Driven.isMarked (h : Driven m) : m.registers.p.IsMarked := by
  induction h with
  | powerOn tv slot => exact Status.isMarked_powerOn
  | cycle _ ih => exact isMarked_cycle ih
  | reset _ powerCycle ih => exact isMarked_resetCpu ih powerCycle
  | meanwhile _ bus ih => exact ih

/-- A power cycle forgets what the processor was doing, so that every machine has come from power-on
after it. -/
theorem driven_powerCycle (m : Machine) : Driven (m.resetCpu true) :=
  ((Driven.powerOn .ntsc .empty).meanwhile m.bus).reset true

/-! ## What is pushed -/

/-- The status lies below the program counter. -/
theorem stackByte_suspended (m : Machine) (breakMark : Bool) :
    (m.suspended breakMark).bus.stackByte (m.registers.sp - 2) =
      m.registers.p.pushed breakMark := by
  have hsp : (m.pushWord m.registers.pc).registers.sp = m.registers.sp - 2 := by
    change m.registers.sp - 1 - 1 = m.registers.sp - 2
    grind
  change ((m.pushWord m.registers.pc).push _).bus.stackByte _ = _
  rw [push_eq, hsp]
  exact Bus.stackByte_setStackByte_self

/-- What lay on top of the stack stays there. -/
theorem stackByte_suspended_above (m : Machine) (breakMark : Bool) :
    (m.suspended breakMark).bus.stackByte (m.registers.sp + 1) =
      m.bus.stackByte (m.registers.sp + 1) := by
  have hcell : ∀ i < [highByte m.registers.pc, lowByte m.registers.pc,
      m.registers.p.pushed breakMark].length,
      Bus.stackCell (m.registers.sp + 1) ≠ Bus.stackCell (m.registers.sp - UInt8.ofNat i) := by
    intro i hi heq
    have hlength : i < 3 := hi
    have hnat := congrArg UInt8.toNat (Bus.stackCell_inj.mp heq)
    have hsp := m.registers.sp.toNat_lt
    simp only [UInt8.toNat_add, UInt8.toNat_sub, UInt8.toNat_ofNat', UInt8.reduceToNat] at hnat
    omega
  exact m.ram_pushAll hcell

/-- Reading the vector leaves memory as it is. -/
theorem ram_enterInterrupt (m : Machine) (vector : UInt16) (breakMark : Bool) :
    (m.enterInterrupt vector breakMark).bus.ram = (m.suspended breakMark).bus.ram :=
  (Bus.Aside.readsTo (reads_readWord (m.suspended breakMark) vector).bus).ram

/-- After the entry of an interrupt the status is on top of the stack. -/
theorem sp_enterInterrupt (m : Machine) (vector : UInt16) (breakMark : Bool) :
    (m.enterInterrupt vector breakMark).registers.sp + 1 = m.registers.sp - 2 := by
  change (m.suspended breakMark).registers.sp + 1 = m.registers.sp - 2
  rw [registers_suspended]
  change m.registers.sp - 3 + 1 = m.registers.sp - 2
  grind

theorem stackByte_enterInterrupt (m : Machine) (vector : UInt16) (breakMark : Bool) :
    (m.enterInterrupt vector breakMark).bus.stackByte (m.registers.sp - 2) =
      m.registers.p.pushed breakMark := by
  rw [Bus.stackByte_congr (m.ram_enterInterrupt vector breakMark), stackByte_suspended]

theorem ram_settled (m : Machine) (i : Instruction) :
    (m.settled i).bus.ram = (m.acting.execute i).bus.ram := by
  rw [settled, settle, bus_beginTransfer]
  rfl

theorem registers_settled (m : Machine) (i : Instruction) :
    (m.settled i).registers = (m.acting.execute i).registers := by
  rw [settled, settle, registers_beginTransfer]
  rfl

/-- Whatever an instruction has left on top of the stack is there at the end of the cycle, also if
an interrupt is entered in it. -/
theorem stackByte_cycle (hi : m.completing? = some i) (hjam : i.operation ≠ .jam) :
    m.cycle.bus.stackByte ((m.settled i).registers.sp + 1) =
      (m.settled i).bus.stackByte ((m.settled i).registers.sp + 1) := by
  rw [cycle_of_entering hi hjam]
  cases m.entering? with
  | none => rfl
  | some interrupt =>
    dsimp only
    rw [enter_eq, bus_setPhase, Bus.stackByte_congr (ram_enterInterrupt _ _ _)]
    exact ((m.settled i).acknowledging interrupt).stackByte_suspended_above false

theorem isPushedAs_php (hi : m.completing? = some i) (hop : i.operation = .php) :
    m.registers.p.IsPushedAs true (m.cycle.bus.stackByte m.registers.sp) := by
  have hexecute : m.acting.execute i = m.acting.push (m.registers.p.pushed true) := by
    rw [execute, hop]
    rfl
  have hsp : (m.settled i).registers.sp + 1 = m.registers.sp := by
    rw [registers_settled, hexecute]
    change m.registers.sp - 1 + 1 = m.registers.sp
    grind
  have hbyte := stackByte_cycle hi (by rw [hop]; decide)
  rw [hsp, Bus.stackByte_congr (m.ram_settled i), hexecute, push_eq] at hbyte
  rw [hbyte.trans Bus.stackByte_setStackByte_self]
  exact m.registers.p.isPushedAs_pushed true

theorem isPushedAs_brk (hi : m.completing? = some i) (hop : i.operation = .brk) :
    m.registers.p.IsPushedAs true (m.cycle.bus.stackByte (m.registers.sp - 2)) := by
  obtain ⟨s, hs⟩ : ∃ s, s = m.acting.jump (m.acting.registers.pc + 1) := ⟨_, rfl⟩
  have hexecute : m.acting.execute i = s.enterInterrupt Cpu.irqVector true := by
    rw [execute, hop, hs]
  have hregisters : s.registers.sp = m.registers.sp ∧ s.registers.p = m.registers.p := by
    rw [hs]
    exact ⟨rfl, rfl⟩
  have hsp : (m.settled i).registers.sp + 1 = m.registers.sp - 2 := by
    rw [registers_settled, hexecute, ← hregisters.1]
    exact s.sp_enterInterrupt _ true
  have hbyte := stackByte_cycle hi (by rw [hop]; decide)
  rw [hsp, Bus.stackByte_congr (m.ram_settled i), hexecute, ← hregisters.1,
    stackByte_enterInterrupt, hregisters.2] at hbyte
  rw [← hregisters.1, hbyte]
  exact m.registers.p.isPushedAs_pushed true

theorem isPushedAs_enter (m : Machine) (interrupt : Interrupt) :
    m.registers.p.IsPushedAs false
      ((m.enter interrupt).bus.stackByte ((m.enter interrupt).registers.sp + 1)) := by
  have hsp : (m.enter interrupt).registers.sp + 1 = m.registers.sp - 2 :=
    (m.acknowledging interrupt).sp_enterInterrupt _ false
  have hbyte : (m.enter interrupt).bus.stackByte (m.registers.sp - 2) =
      m.registers.p.pushed false :=
    (m.acknowledging interrupt).stackByte_enterInterrupt _ false
  rw [hsp, hbyte]
  exact m.registers.p.isPushedAs_pushed false

/-- In every machine that has come from power-on, bit 5 of the status is set and bit 4 clear. What
the two instructions that push the status put on the stack has bits 4 and 5 set and is otherwise the
status. What an interrupt puts there has bit 5 set and bit 4 clear and is otherwise the status that
the instruction before it has left, which goes on with interrupts disabled. -/
theorem Driven.status_marks (h : Driven m) :
    (bit m.registers.p.toByte 5 = true ∧ bit m.registers.p.toByte 4 = false) ∧
      ∀ i, m.completing? = some i →
        (i.operation = .php →
          m.registers.p.IsPushedAs true (m.cycle.bus.stackByte m.registers.sp)) ∧
        (i.operation = .brk →
          m.registers.p.IsPushedAs true (m.cycle.bus.stackByte (m.registers.sp - 2))) ∧
        ∀ interrupt, m.entering? = some interrupt →
          (m.settled i).registers.p.IsPushedAs false
              (m.cycle.bus.stackByte (m.cycle.registers.sp + 1)) ∧
            m.cycle.registers.p =
              { (m.settled i).registers.p with interruptDisable := true } := by
  refine ⟨h.isMarked.bits, fun i hi ↦ ⟨isPushedAs_php hi, isPushedAs_brk hi, ?_⟩⟩
  intro interrupt hentering
  rw [cycle_of_enters hi hentering]
  exact ⟨(m.settled i).isPushedAs_enter interrupt, p_enter _ _⟩

theorem driven_returning (opcode : UInt8) (lines : Lines) (n : Nat) :
    Driven ((returning opcode lines).cycleMany n) := by
  induction n with
  | zero => exact (Driven.powerOn .ntsc returnSlot).meanwhile _
  | succ n ih => exact cycleMany_succ' n (returning opcode lines) ▸ ih.cycle

/-- An instruction that pushes the status, a break, and an interrupt. -/
theorem status_marks_returning :
    Status.powerOn.IsPushedAs true
        (((returning 0x08 {}).cycleMany 3).bus.stackByte 0xfd) ∧
      Status.powerOn.IsPushedAs true
        (((returning 0x00 {}).cycleMany 7).bus.stackByte 0xfb) ∧
      Status.powerOn.IsPushedAs false
        (((returning 0xea { nmi := true }).cycleMany 2).bus.stackByte 0xfb) := by
  obtain ⟨-, hphp⟩ := (driven_returning 0x08 {} 2).status_marks
  obtain ⟨-, hbrk⟩ := (driven_returning 0x00 {} 6).status_marks
  obtain ⟨-, hnmi⟩ := (driven_returning 0xea { nmi := true } 1).status_marks
  refine ⟨?_, ?_, ?_⟩
  · exact (hphp ⟨.php, .implicit, 0, false⟩ rfl).1 rfl
  · exact (hbrk ⟨.brk, .implicit, 0, false⟩ rfl).2.1 rfl
  · exact ((hnmi ⟨.nop, .implicit, 0, false⟩ rfl).2.2 .nmi rfl).1

end Machine

end Famicom
