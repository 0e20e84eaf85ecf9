import Famicom.Console
import Famicom.Proofs.Machine.Completion
import Famicom.Proofs.Picture.Dot

/-!
# Reachable consoles

`Console.Reachable` holds of the consoles that come from switching one on by any sequence of dots,
frames, resets, changes of the cartridge, reads of memory and changes of a controller. A dot is one
dot of the picture chip and then, one after the other, the processor cycles that are due, each with
a cycle of the sound chip; `Console.cycled` lists the machines that these cycles start from, so that
what happens inside a dot can be spoken about.

## The maskable interrupt

The line of the maskable interrupt is moved by the sound chip, by the registers that acknowledge its
flag, by the processor when it accepts either interrupt, and by a reset. Within a dot the line may
fall behind the flag, when the processor has just accepted; it never runs ahead of it, and the next
cycle of the sound chip raises it again. So at the end of every dot and before every cycle in it the
two agree (`Reachable.holdsIrq_throughout`).
-/

namespace Famicom

/-! ## A cycle of processor and sound chip -/

namespace Machine

/-- A processor cycle and the cycle of the sound chip that goes with it. -/
def sharedCycle (m : Machine) : Machine := ⟨m.cycle.cpu, m.cycle.bus.clockSound⟩

end Machine

theorem Bus.beam_clockPicture (b : Bus) :
    b.clockPicture.2.ppu.beam = (b.ppu.beam.advance b.ppu.controls.rendering).2 := by
  obtain ⟨⟨v, hit, overflow, selected, latch, shifters, frame, htick⟩, -, -⟩ :=
    b.ppu.tick_eq b.slot.readPpu
  simp only [clockPicture, htick]

namespace Console

@[simp] theorem runCycles_zero (m : Machine) : runCycles 0 m = m := rfl

theorem runCycles_succ (n : Nat) (m : Machine) :
    runCycles (n + 1) m = runCycles n m.sharedCycle := rfl

/-- The machines that `n` cycles start from. -/
def startsOf : Nat → Machine → List Machine
  | 0, _ => []
  | n + 1, m => m :: startsOf n m.sharedCycle

/-- The machine after the dot of the picture chip, which the cycles due are run from. -/
def pictured (c : Console) : Machine := ⟨c.machine.cpu, c.machine.bus.clockPicture.2⟩

/-- The machines that the processor cycles of the next dot start from. -/
def cycled (c : Console) : List Machine := startsOf c.clock.tick.1 c.pictured

theorem machine_stepDot (c : Console) :
    c.stepDot.2.machine = runCycles c.clock.tick.1 c.pictured := rfl

theorem television_stepDot (c : Console) : c.stepDot.2.television = c.television := rfl

section

variable {P : Machine → Prop}

/-- What every cycle keeps, the cycles due keep, and it holds of each machine on the way. -/
theorem runCycles_preserves (hcycle : ∀ m, P m → P m.sharedCycle) {n : Nat} {m : Machine}
    (hm : P m) : P (runCycles n m) ∧ ∀ s ∈ startsOf n m, P s := by
  induction n generalizing m with
  | zero => exact ⟨hm, fun s hs ↦ absurd hs List.not_mem_nil⟩
  | succ n ih =>
    obtain ⟨hend, hstarts⟩ := ih (hcycle m hm)
    refine ⟨hend, fun s hs ↦ ?_⟩
    rcases List.mem_cons.mp hs with rfl | hs
    · exact hm
    · exact hstarts s hs

end

/-! ## Reachability -/

/-- The consoles that come from one that has just been switched on. -/
inductive Reachable : Console → Prop where
  | powerOn (tv : Television) : Reachable (powerOn tv)
  | stepDot {c : Console} (h : Reachable c) : Reachable c.stepDot.2
  | finishFrame {c : Console} (h : Reachable c) : Reachable c.finishFrame
  | reset {c : Console} (h : Reachable c) (powerCycle : Bool) : Reachable (c.reset powerCycle)
  | insert {c d : Console} {bytes : Array UInt8} (h : Reachable c) (hd : c.insert bytes = .ok d) :
    Reachable d
  | eject {c : Console} (h : Reachable c) : Reachable c.eject
  | readMemory {c : Console} (h : Reachable c) (addr : UInt16) :
    Reachable (c.modifyBus fun b ↦ (b.read addr).2)
  | modifyPad {c : Console} {i : Nat} {change : Pad → Pad} {bus : Bus} (h : Reachable c)
    (hbus : c.machine.bus.modifyPad? i change = some bus) : Reachable (c.modifyBus fun _ ↦ bus)

theorem eq_replaceSlot_of_insert {c d : Console} {bytes : Array UInt8}
    (h : c.insert bytes = .ok d) : ∃ slot, d = c.replaceSlot slot := by
  unfold insert at h
  cases hslot : Slot.ofBytes bytes with
  | error e => rw [hslot] at h; cases h
  | ok slot =>
    rw [hslot] at h
    exact ⟨slot, (Except.ok.inj h).symm⟩

theorem modifyPad?_cases {b bus : Bus} {i : Nat} {change : Pad → Pad}
    (h : b.modifyPad? i change = some bus) : ∃ pads, bus = { b with pads } := by
  unfold Bus.modifyPad? at h
  split at h
  · exact ⟨_, (Option.some.inj h).symm⟩
  · exact absurd h (Option.some_ne_none _).symm

/-- An invariant of the consoles that are reachable: it holds after switching on and after every
reset, and dots and changes on the bus keep it. -/
theorem Reachable.invariant {P : Console → Prop} (hon : ∀ tv, P (Console.powerOn tv))
    (hdot : ∀ c, P c → P c.stepDot.2) (hreset : ∀ c powerCycle, P c → P (c.reset powerCycle))
    (hslot : ∀ c slot, P c → P (c.replaceSlot slot))
    (hread : ∀ c addr, P c → P (c.modifyBus fun b ↦ (b.read addr).2))
    (hpads : ∀ c pads, P c → P (c.modifyBus fun b ↦ { b with pads })) {c : Console}
    (h : Reachable c) : P c := by
  -- a frame is some number of dots
  have hframe (limit : Nat) (c : Console) (hc : P c) : P (finishFrameWithin limit c) := by
    induction limit generalizing c with
    | zero => exact hc
    | succ limit ih =>
      unfold finishFrameWithin
      dsimp only
      split
      · exact hdot c hc
      · exact ih _ (hdot c hc)
  induction h with
  | powerOn tv => exact hon tv
  | stepDot _ ih => exact hdot _ ih
  | finishFrame _ ih => exact hframe _ _ ih
  | reset _ powerCycle ih => exact hreset _ powerCycle ih
  | insert _ hd ih =>
    obtain ⟨slot, rfl⟩ := eq_replaceSlot_of_insert hd
    exact hslot _ slot ih
  | eject _ ih => exact hslot _ .empty ih
  | readMemory _ addr ih => exact hread _ addr ih
  | modifyPad _ hbus ih =>
    obtain ⟨pads, rfl⟩ := modifyPad?_cases hbus
    exact hpads _ pads ih

/-! ## Reset -/

/-- A reset releases both lines and takes back the state of both chips. It leaves the clock at the
start of its ratio and the processor stalled. -/
theorem reset_eq (c : Console) (powerCycle : Bool) :
    ∃ registers ram testBlock pads fault,
      c.reset powerCycle =
        { c with
          machine :=
            ⟨{ registers, phase := .stall Cpu.entryCycles },
              { c.machine.bus with
                ram, testBlock, pads, fault
                ppu := c.machine.bus.ppu.reset
                apu := c.machine.bus.apu.reset
                lines := {}
                transferPage := none }⟩
          clock := c.clock.reset } := by
  obtain ⟨television, ⟨cpu, bus⟩, clock, speed⟩ := c
  have hregion : Region.ofAddress Cpu.resetVector = .cartridge Cpu.resetVector ∧
      Region.ofAddress (Cpu.resetVector + 1) = .cartridge (Cpu.resetVector + 1) := ⟨rfl, rfl⟩
  -- the vector is read last, from a bus whose chips have been reset already
  let b : Bus :=
    { bus.resetMemory powerCycle with ppu := bus.ppu.reset, apu := bus.apu.reset, lines := {} }
  obtain ⟨_, hlow⟩ := Machine.bus_read_cartridge b hregion.1
  obtain ⟨fault, hhigh⟩ := Machine.bus_read_cartridge (b.read Cpu.resetVector).2 hregion.2
  have hword : (b.readWord Cpu.resetVector).2 = { b with fault } := by
    refine Eq.trans hhigh ?_
    rw [hlow]
  let registers : Registers :=
    { Cpu.resetRegisters cpu.registers powerCycle with pc := (b.readWord Cpu.resetVector).1 }
  refine ⟨registers, b.ram, b.testBlock, b.pads, fault, ?_⟩
  change Console.mk television
    ⟨{ registers, phase := .stall Cpu.entryCycles }, (b.readWord Cpu.resetVector).2⟩
    clock.reset speed = _
  rw [hword]
  rfl

/-- An invariant of the bus: it holds after every reset, and the dots and cycles, reads and changes
of the controllers keep it. -/
theorem Reachable.bus_invariant {P : Bus → Prop}
    (hreset : ∀ (c : Console) (powerCycle : Bool), P (c.reset powerCycle).machine.bus)
    (hpicture : ∀ b : Bus, P b → P b.clockPicture.2)
    (hcycle : ∀ m : Machine, P m.bus → P m.sharedCycle.bus)
    (hread : ∀ (b : Bus) (addr : UInt16), P b → P (b.read addr).2)
    (hpads : ∀ (b : Bus) (pads : Vector Pad 2), P b → P { b with pads }) {c : Console}
    (h : Reachable c) : P c.machine.bus ∧ ∀ m ∈ c.cycled, P m.bus := by
  have hdot (c : Console) (hc : P c.machine.bus) :=
    runCycles_preserves (P := fun m ↦ P m.bus) (n := c.clock.tick.1) (m := c.pictured) hcycle
      (hpicture _ hc)
  have hbus : P c.machine.bus :=
    h.invariant (P := fun c ↦ P c.machine.bus) (fun tv ↦ hreset _ true) (fun c hc ↦ (hdot c hc).1)
      (fun c powerCycle _ ↦ hreset c powerCycle) (fun c slot _ ↦ hreset _ true)
      (fun c addr ↦ hread _ addr) (fun c pads ↦ hpads _ pads)
  exact ⟨hbus, (hdot c hbus).2⟩

/-! ## The maskable interrupt -/

end Console

theorem Bus.AccessesTo.holdsIrq {b c : Bus} (h : b.AccessesTo c) (hb : b.HoldsIrq) :
    c.HoldsIrq :=
  h.preserves (P := HoldsIrq) (fun _ addr h ↦ holdsIrq_read h addr)
    (fun _ addr value h ↦ holdsIrq_write h addr value) hb

namespace Machine

variable {m : Machine} {i : Instruction}

theorem holdsIrq_settled (h : m.bus.HoldsIrq) (i : Instruction) : (m.settled i).bus.HoldsIrq := by
  obtain ⟨b, haccesses, hbus⟩ := m.bus_settled i
  rw [hbus]
  exact haccesses.holdsIrq h

theorem irqFlag_enter (m : Machine) (interrupt : Interrupt) :
    (m.enter interrupt).bus.apu.irqFlag = m.bus.apu.irqFlag ∧
      (m.enter interrupt).bus.lines.irq = false := by
  obtain ⟨ram, fault, hbus⟩ := m.bus_enter interrupt
  rw [hbus]
  exact ⟨rfl, by cases interrupt <;> rfl⟩

/-- A processor cycle does not bring the line ahead of the flag, and with the sound chip the two
agree again. -/
theorem holdsIrq_sharedCycle (h : m.bus.HoldsIrq) : m.sharedCycle.bus.HoldsIrq := by
  refine Bus.holdsIrq_clockSound ?_
  have hle {b : Bus} (hb : b.HoldsIrq) : b.lines.irq = true → b.apu.irqFlag = true :=
    fun hline ↦ hb.symm.trans hline
  rcases cycle_cases m with ⟨-, -, hidles⟩ | ⟨i, -, ⟨-, -, hcycle⟩ | ⟨-, -, hcycle⟩⟩
  · exact hle (hidles.accesses.holdsIrq h)
  · rw [hcycle, bus_setPhase]
    exact hle (holdsIrq_settled h i)
  · rw [hcycle]
    cases m.entering? with
    | none => exact hle (holdsIrq_settled h i)
    | some interrupt =>
      -- either entry drops the line, whatever the flag is
      intro hline
      rw [(irqFlag_enter _ _).2] at hline
      exact Bool.noConfusion hline

end Machine

namespace Console

variable {c : Console}

/-- At the end of a dot, and before each cycle in it, the line is up exactly when the flag of the
sequencer is. -/
theorem Reachable.holdsIrq_throughout (h : Reachable c) :
    c.machine.bus.HoldsIrq ∧ ∀ m ∈ c.cycled, m.bus.HoldsIrq := by
  refine h.bus_invariant ?_ (fun b ↦ Bus.holdsIrq_clockPicture)
    (fun m ↦ Machine.holdsIrq_sharedCycle) (fun b addr hb ↦ Bus.holdsIrq_read hb addr)
    (fun b pads ↦ id)
  intro c powerCycle
  obtain ⟨_, _, _, _, _, hreset⟩ := c.reset_eq powerCycle
  rw [hreset]
  rfl

theorem Reachable.holdsIrq (h : Reachable c) : c.machine.bus.HoldsIrq := h.holdsIrq_throughout.1

theorem Reachable.holdsIrq_cycled (h : Reachable c) {m : Machine} (hm : m ∈ c.cycled) :
    m.bus.HoldsIrq :=
  h.holdsIrq_throughout.2 m hm

theorem isMasked_eq_ite (operation : Operation) (before after : Status) :
    operation.isMasked before after =
      (if operation = .rti then after else before).interruptDisable := by
  unfold Operation.isMasked
  cases operation <;> rfl

end Console

end Famicom
