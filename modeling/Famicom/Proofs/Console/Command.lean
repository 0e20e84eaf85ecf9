import Famicom.Proofs.Console.Lockstep
import Famicom.Proofs.Safety.Processor
import Famicom.Session

/-!
# Histories of a console

What can be done with a console, as data: dots and frames, resets, cartridges, reads of memory,
controllers, the registers and interrupt lines of the processor, and the settings of sound and
speed. A history is a list of these, and `Console.run` has a console go through one.

Whatever the history is, the console stays whole (`Console.IsWhole`). Its clock keeps step and has
not failed, everything in it is built for one standard, and no read has missed the cartridge. A
reset is not opaque then: with a safe slot the vector is there, so the bus after a reset is the one
that the chips are reset on (`Console.reset_eq_restarted`).
-/

namespace Famicom

/-! ## Commands -/

/-- What can be done with a controller. -/
inductive Pad.Command where
  | read
  | writeStrobe (value : UInt8)
  | setButtons (mask : UInt8)
  | setButton (button : Button) (pressed : Bool)
  deriving DecidableEq, Repr

/-- The controller after a command. -/
def Pad.Command.perform (command : Pad.Command) (p : Pad) : Pad :=
  match command with
  | read => p.read.2
  | writeStrobe value => p.writeStrobe value
  | setButtons mask => p.setButtons mask
  | setButton button pressed => p.setButton button pressed

/-- Asks for an interrupt. -/
def Lines.request (l : Lines) : Interrupt → Lines
  | .nmi => l.requestNmi
  | .irq => l.requestIrq

namespace Console

/-- What can be done with a console. -/
inductive Command where
  | stepDot
  | finishFrame
  | reset (powerCycle : Bool)
  | insert (bytes : Array UInt8)
  | eject
  | readMemory (addr : UInt16)
  | usePad (i : Fin 2) (command : Pad.Command)
  | setRegisters (registers : Registers)
  | request (interrupt : Interrupt)
  | setSampleRate (rate : Nat)
  | setSpeed (speed : Float)
  | readSamples (dest : List Sample) (count : Nat)
  | clearSamples

/-- The console after a command. What is refused leaves it as it was. -/
def Command.perform (command : Command) (c : Console) : Console :=
  match command with
  | stepDot => c.stepDot.2
  | finishFrame => c.finishFrame
  | reset powerCycle => c.reset powerCycle
  | insert bytes =>
    match c.insert bytes with
    | .ok d => d
    | .error _ => c
  | eject => c.eject
  | readMemory addr => c.modifyBus fun b ↦ (b.read addr).2
  | usePad i command =>
    c.modifyBus fun b ↦
      { b with pads := b.pads.setIfInBounds i (command.perform (b.pads.get i)) }
  | setRegisters registers => { c with machine := c.machine.modifyRegisters fun _ ↦ registers }
  | request interrupt => c.modifyBus fun b ↦ { b with lines := b.lines.request interrupt }
  | setSampleRate rate => c.setSampleRate rate
  | setSpeed speed => c.setSpeed speed
  | readSamples dest count =>
    match c.machine.bus.apu.readSamples dest count with
    | .ok (_, apu) => c.modifyBus fun b ↦ { b with apu }
    | .error _ => c
  | clearSamples => c.clearSamples

section

variable {c : Console} {bytes : Array UInt8}

theorem perform_insert_of_ok {slot : Slot} (h : Slot.ofBytes bytes = .ok slot) :
    (Command.insert bytes).perform c = c.replaceSlot slot := by
  simp only [Command.perform, insert, h, Except.map]

theorem perform_insert_of_error {e : CartridgeError} (h : Slot.ofBytes bytes = .error e) :
    (Command.insert bytes).perform c = c := by
  simp only [Command.perform, insert, h, Except.map]

end

/-- The console after a history. -/
def run (history : List Command) (c : Console) : Console :=
  history.foldl (fun c (command : Command) ↦ command.perform c) c

/-- What every command keeps, a history keeps. -/
theorem run_preserves {P : Console → Prop}
    (hperform : ∀ (command : Command) (c : Console), P c → P (command.perform c))
    (history : List Command) {c : Console} (hc : P c) : P (run history c) := by
  induction history generalizing c with
  | nil => exact hc
  | cons command rest ih => exact ih (hperform command c hc)

end Console

/-! ## Resets -/

/-- The bus that a reset leaves before the vector is read. -/
def Bus.restarted (b : Bus) (powerCycle : Bool) : Bus :=
  { b.resetMemory powerCycle with ppu := b.ppu.reset, apu := b.apu.reset, lines := {} }

theorem Bus.IsWhole.restarted {b : Bus} (h : b.IsWhole) (powerCycle : Bool) :
    (b.restarted powerCycle).IsWhole := ⟨h.slot, h.television, h.capacity, h.fault⟩

/-- The words of the cartridge are there to be read. -/
theorem Bus.exists_readWord {b : Bus} (h : b.slot.IsSafe) {addr : UInt16}
    (hlow : Region.ofAddress addr = .cartridge addr)
    (hhigh : Region.ofAddress (addr + 1) = .cartridge (addr + 1)) :
    ∃ low high, b.slot.readCpu? addr = some low ∧ b.slot.readCpu? (addr + 1) = some high ∧
      b.readWord addr = (wordOf low high, b) := by
  obtain ⟨low, first⟩ := h.exists_readCpu? addr
  obtain ⟨high, second⟩ := h.exists_readCpu? (addr + 1)
  refine ⟨low, high, first, second, ?_⟩
  simp only [readWord, Machine.bus_read_of_readCpu? hlow first,
    Machine.bus_read_of_readCpu? hhigh second]

namespace Console

variable {c : Console}

/-- A reset starts the processor at its vector and leaves the bus with its chips reset. -/
theorem reset_eq_restarted (h : c.machine.bus.slot.IsSafe) (powerCycle : Bool) :
    ∃ low high, c.machine.bus.slot.readCpu? Cpu.resetVector = some low ∧
      c.machine.bus.slot.readCpu? (Cpu.resetVector + 1) = some high ∧
      c.reset powerCycle =
        { c with
          machine :=
            ⟨{ registers :=
                 { Cpu.resetRegisters c.cpu.registers powerCycle with pc := wordOf low high }
               phase := .stall Cpu.entryCycles },
              c.machine.bus.restarted powerCycle⟩
          clock := c.clock.reset } := by
  have hslot : (c.machine.bus.restarted powerCycle).slot.IsSafe := h
  have hregion : Region.ofAddress Cpu.resetVector = .cartridge Cpu.resetVector := rfl
  obtain ⟨low, high, first, second, hread⟩ := Bus.exists_readWord hslot hregion rfl
  refine ⟨low, high, first, second, ?_⟩
  obtain ⟨television, ⟨cpu, bus⟩, clock, speed⟩ := c
  dsimp only at hread
  change Console.mk television
    ⟨{ registers :=
         { Cpu.resetRegisters cpu.registers powerCycle with
           pc := ((bus.restarted powerCycle).readWord Cpu.resetVector).1 }
       phase := .stall Cpu.entryCycles },
      ((bus.restarted powerCycle).readWord Cpu.resetVector).2⟩ clock.reset speed = _
  rw [hread]
  rfl

/-! ## What every history keeps -/

/-- The console is built for one standard, its clock keeps step with `dots` dots since the last
reset and has not failed, and its bus is whole. -/
structure IsWhole (tv : Television) (dots : Nat) (c : Console) : Prop where
  television : c.television = tv
  paced : c.IsPaced dots c.cpu.cycles
  clock : c.clock.fault = false
  bus : c.machine.bus.IsWhole

theorem fault_tick {clock : RatioClock} {tv : Television} (hratio : clock.ratio = tv.cyclesPerDot)
    (haccumulator : clock.accumulator < tv.cyclesPerDot.denominator)
    (hfault : clock.fault = false) : clock.tick.2.fault = false := by
  have hlimit : ¬RatioClock.accumulatorLimit ≤ clock.accumulator + tv.cyclesPerDot.numerator := by
    have hsmall : tv.cyclesPerDot.denominator + tv.cyclesPerDot.numerator < 0x100 := by
      cases tv <;> decide
    rw [RatioClock.accumulatorLimit]
    omega
  simp only [RatioClock.tick, hratio, hfault, hlimit, decide_false, Bool.or_false, Bool.false_or]
  exact beq_eq_false_iff_ne.mpr (Nat.ne_of_gt tv.denominator_pos)

/-- A reset starts again, whatever has been before. -/
theorem isWhole_reset {tv : Television} (htelevision : c.television = tv) (htimed : c.IsTimed)
    (hclock : c.clock.fault = false) (hbus : c.machine.bus.IsWhole) (powerCycle : Bool) :
    (c.reset powerCycle).IsWhole tv 0 := by
  have hpaced := isPaced_reset htimed powerCycle
  obtain ⟨low, high, -, -, hreset⟩ := reset_eq_restarted hbus.slot powerCycle
  rw [hreset] at hpaced ⊢
  exact ⟨htelevision, hpaced, hclock, hbus.restarted powerCycle⟩

theorem isWhole_powerOn (tv : Television) : (powerOn tv).IsWhole tv 0 :=
  isWhole_reset (c := ⟨tv, .powerOn tv .empty, { ratio := tv.cyclesPerDot }, 1.0⟩) rfl ⟨rfl, rfl⟩
    rfl ⟨trivial, rfl, rfl, rfl⟩ true

namespace IsWhole

variable {tv : Television} {dots : Nat}

theorem reset (h : c.IsWhole tv dots) (powerCycle : Bool) : (c.reset powerCycle).IsWhole tv 0 :=
  isWhole_reset h.television h.paced.toIsTimed h.clock h.bus powerCycle

theorem replaceSlot (h : c.IsWhole tv dots) {slot : Slot} (hslot : slot.IsSafe) :
    (c.replaceSlot slot).IsWhole tv 0 :=
  isWhole_reset (c := c.modifyBus fun b ↦ { b with slot }) h.television
    ⟨h.paced.ratio, h.paced.beam⟩ h.clock (h.bus.withSlot hslot) true

theorem stepDot (h : c.IsWhole tv dots) : c.stepDot.2.IsWhole tv (dots + 1) where
  television := h.television
  paced := by
    rw [cycles_stepDot, ← length_clocked]
    exact h.paced.stepDot
  clock := fault_tick h.paced.ratio h.paced.accumulator_lt h.clock
  bus :=
    (runCycles_preserves (P := fun m ↦ m.bus.IsWhole) (fun _ ↦ Machine.isWhole_sharedCycle)
      (n := c.clock.tick.1) (m := c.pictured) h.bus.clockPicture).1

/-- What changes neither the beam nor what makes a bus whole. -/
theorem modifyBus (h : c.IsWhole tv dots) {change : Bus → Bus}
    (hbus : (change c.machine.bus).IsWhole)
    (hbeam : (change c.machine.bus).ppu.beam = c.machine.bus.ppu.beam) :
    (c.modifyBus change).IsWhole tv dots := by
  obtain ⟨htelevision, ⟨⟨hratio, hstandard⟩, hlt, hbalance, hsound⟩, hclock, -⟩ := h
  exact ⟨htelevision, ⟨⟨hratio, (congrArg Beam.television hbeam).trans hstandard⟩, hlt, hbalance,
    hsound⟩, hclock, hbus⟩

theorem setRegisters (h : c.IsWhole tv dots) (registers : Registers) :
    IsWhole tv dots { c with machine := c.machine.modifyRegisters fun _ ↦ registers } :=
  ⟨h.television, ⟨⟨h.paced.ratio, h.paced.beam⟩, h.paced.accumulator_lt, h.paced.balance,
    h.paced.sound⟩, h.clock, h.bus⟩

theorem setSpeed (h : c.IsWhole tv dots) (speed : Float) : (c.setSpeed speed).IsWhole tv dots :=
  ⟨h.television, ⟨⟨h.paced.ratio, h.paced.beam⟩, h.paced.accumulator_lt, h.paced.balance,
    h.paced.sound⟩, h.clock, h.bus⟩

theorem finishFrameWithin (limit : Nat) (h : c.IsWhole tv dots) :
    ∃ dots', (finishFrameWithin limit c).IsWhole tv dots' := by
  induction limit generalizing c dots with
  | zero => exact ⟨dots, h⟩
  | succ limit ih =>
    rw [Console.finishFrameWithin]
    dsimp only
    split
    · exact ⟨_, h.stepDot⟩
    · exact ih h.stepDot

theorem perform (h : c.IsWhole tv dots) (command : Command) :
    ∃ dots', (command.perform c).IsWhole tv dots' := by
  have whole := h.bus
  cases command with
  | stepDot => exact ⟨_, h.stepDot⟩
  | finishFrame => exact h.finishFrameWithin _
  | reset powerCycle => exact ⟨_, h.reset powerCycle⟩
  | insert bytes =>
    cases hslot : Slot.ofBytes bytes with
    | error e =>
      rw [perform_insert_of_error hslot]
      exact ⟨_, h⟩
    | ok slot =>
      rw [perform_insert_of_ok hslot]
      exact ⟨_, h.replaceSlot (Slot.isSafe_ofBytes hslot)⟩
  | eject => exact ⟨_, h.replaceSlot trivial⟩
  | readMemory addr =>
    have hread : (c.modifyBus fun b ↦ (b.read addr).2).IsWhole tv dots :=
      h.modifyBus (whole.read addr) (Bus.beam_read _ addr)
    exact ⟨dots, hread⟩
  | usePad i command =>
    have hpads : (c.modifyBus fun b ↦
        { b with
          pads := b.pads.setIfInBounds i (command.perform (b.pads.get i)) }).IsWhole tv dots :=
      h.modifyBus (whole.withPads _) rfl
    exact ⟨dots, hpads⟩
  | setRegisters registers => exact ⟨dots, h.setRegisters registers⟩
  | request interrupt =>
    have hlines : (c.modifyBus fun b ↦
        { b with lines := b.lines.request interrupt }).IsWhole tv dots :=
      h.modifyBus (whole.withLines _) rfl
    exact ⟨dots, hlines⟩
  | setSampleRate rate =>
    have hrate : (c.modifyBus fun b ↦
        { b with apu := b.apu.setSampleRate rate }).IsWhole tv dots :=
      h.modifyBus (whole.withApu rfl rfl) rfl
    exact ⟨dots, hrate⟩
  | setSpeed speed => exact ⟨dots, h.setSpeed speed⟩
  | readSamples dest count =>
    cases hread : c.machine.bus.apu.readSamples dest count with
    | error e =>
      simp only [Command.perform, hread]
      exact ⟨_, h⟩
    | ok read =>
      obtain ⟨samples, happly, hcapacity⟩ := Apu.readSamples_eq_ok hread
      simp only [Command.perform, hread, happly]
      exact ⟨dots, h.modifyBus (whole.withApu rfl hcapacity) rfl⟩
  | clearSamples =>
    have hclear : (c.modifyBus fun b ↦
        { b with apu := b.apu.clearSamples }).IsWhole tv dots :=
      h.modifyBus (whole.withApu rfl rfl) rfl
    exact ⟨dots, hclear⟩

end IsWhole

/-- A console with any history is whole. -/
theorem exists_isWhole_run (tv : Television) (history : List Command) :
    ∃ dots, (run history (powerOn tv)).IsWhole tv dots :=
  run_preserves (P := fun c ↦ ∃ dots, c.IsWhole tv dots) (fun command _ ⟨_, h⟩ ↦ h.perform command)
    history ⟨0, isWhole_powerOn tv⟩

end Console

end Famicom
