import Famicom.Proofs.Console.Command

/-!
# The console does not crash

The checks of a whole history: of every dot, with the processor cycles due in it, of the resets, and
of what else can be asked of a console. All of them pass, on every cartridge and whatever program
it contains, as long as no sample rate above the frequency of the processor is asked for and the
cycles stay below `cycleLimit` (`allPass_runChecks`).

Only the count of cycles and the count of frames grow with time. With the first bounded by the
cycles that have been spent, the second is too. A frame takes at least the dots of one line, so that

```text
341 · frames + dot ≤ dots,
```

and the clock balances dots against cycles.
-/

namespace Famicom

open Check

/-! ## What is checked -/

/-- The checks of a tick. -/
def RatioClock.tickChecks (c : RatioClock) : List Check :=
  [.fits .w32 (c.accumulator + c.ratio.numerator), .divide c.ratio.denominator]

/-- The checks of a reset, which reads the vector last. -/
def Bus.resetChecks (b : Bus) (powerCycle : Bool) : List Check :=
  (b.restarted powerCycle).readWordChecks Cpu.resetVector

/-- The checks of what is done with a controller. -/
def Pad.Command.checks (command : Pad.Command) (p : Pad) : List Check :=
  match command with
  | read => p.readChecks
  | writeStrobe _ | setButtons _ => []
  | setButton button _ => [.shift 8 button.index]

/-- The checks of taking samples out of the queue. -/
def Apu.readSamplesChecks (a : Apu) (dest : List Sample) (count : Nat) : List Check :=
  if a.samples.available < count ∨ dest.length < count then []
  else [.slice a.samples.available 0 count]

namespace Console

/-- The checks of a dot and of the cycles due with it. -/
def dotChecks (c : Console) : List Check :=
  c.machine.bus.ppu.tickChecks c.machine.bus.slot ++ c.clock.tickChecks ++
    c.cycled.flatMap Machine.sharedChecks

/-- The consoles that the dots up to the end of the frame start from, at most `limit`. -/
def frameDots : (limit : Nat) → Console → List Console
  | 0, _ => []
  | limit + 1, c => c :: if c.stepDot.1 then [] else frameDots limit c.stepDot.2

/-- The cycles due with dots that start from these consoles. -/
def cyclesDue : (dots : List Console) → Nat
  | [] => 0
  | c :: dots => c.clock.tick.1 + cyclesDue dots

/-- The checks of inserting a cartridge. -/
def insertChecks (c : Console) (bytes : Array UInt8) : List Check :=
  Image.parseChecks bytes ++
    match Slot.ofBytes bytes with
    | .ok slot => { c.machine.bus with slot }.resetChecks true
    | .error _ => []

/-- The consoles that the dots of a command start from. -/
def Command.dots (command : Command) (c : Console) : List Console :=
  match command with
  | stepDot => [c]
  | finishFrame => frameDots c.television.dotsPerFrame c
  | _ => []

/-- The checks of a command. -/
def Command.checks (command : Command) (c : Console) : List Check :=
  match command with
  | stepDot | finishFrame => (command.dots c).flatMap dotChecks
  | reset powerCycle => c.machine.bus.resetChecks powerCycle
  | insert bytes => c.insertChecks bytes
  | eject => { c.machine.bus with slot := .empty }.resetChecks true
  | readMemory addr => c.machine.bus.readChecks addr
  | usePad i command => .index 2 i.val :: command.checks (c.machine.bus.pads.get i)
  | readSamples dest count => c.machine.bus.apu.readSamplesChecks dest count
  | setRegisters _ | request _ | setSampleRate _ | setSpeed _ | clearSamples => []

/-- The checks of a history. -/
def historyChecks : List Command → Console → List Check
  | [], _ => []
  | command :: rest, c => command.checks c ++ historyChecks rest (command.perform c)

/-- The checks of a console that is switched on and then goes through a history. -/
def runChecks (tv : Television) (history : List Command) : List Check :=
  (Bus.powerOn tv .empty).resetChecks true ++ historyChecks history (powerOn tv)

/-- The cycles of a history. -/
def cyclesOf : List Command → Console → Nat
  | [], _ => 0
  | command :: rest, c => cyclesDue (command.dots c) + cyclesOf rest (command.perform c)

/-- The cycles after which the counts may overflow, far beyond any time that can be waited for. -/
def cycleLimit : Nat := 0x8000000000000000

end Console

/-! ## The parts -/

theorem Pad.Command.allPass_checks (command : Pad.Command) (p : Pad) :
    AllPass (command.checks p) := by
  cases command with
  | read => exact p.allPass_readChecks
  | writeStrobe value => exact allPass_nil
  | setButtons mask => exact allPass_nil
  | setButton button pressed =>
    refine allPass_singleton.mpr ?_
    cases button <;> decide

theorem Apu.allPass_readSamplesChecks (a : Apu) (dest : List Sample) (count : Nat) :
    AllPass (a.readSamplesChecks dest count) :=
  allPass_unless fun h ↦
    allPass_singleton.mpr ⟨Nat.zero_le count, Nat.le_of_not_lt fun hless ↦ h (Or.inl hless)⟩

namespace Bus

variable {b : Bus}

theorem isSafe_restarted (h : b.IsWhole) (hapu : b.apu.IsSound) (powerCycle : Bool) :
    (b.restarted powerCycle).IsSafe where
  toIsWhole := h.restarted powerCycle
  apu := hapu.reset
  selected := Nat.zero_le _
  onFrame := b.ppu.beam.isOnFrame_reset

theorem allPass_resetChecks (h : b.IsWhole) (hapu : b.apu.IsSound) (powerCycle : Bool) :
    AllPass (b.resetChecks powerCycle) :=
  (isSafe_restarted h hapu powerCycle).allPass_readWordChecks Cpu.resetVector

end Bus

/-- Of a processor only the phase and the transfer have to be safe. -/
theorem Machine.IsSafe.of_eq {m n : Machine} (h : m.IsSafe) (hbus : n.bus.IsSafe)
    (hphase : n.cpu.phase = m.cpu.phase) (htransfer : n.cpu.transfer = m.cpu.transfer) :
    n.IsSafe := by
  refine ⟨hbus, ⟨fun t ht ↦ h.prompt.step_lt t (htransfer.symm.trans ht), ?_⟩, ?_⟩
  · rw [wait, hphase, htransfer]
    exact h.prompt.wait_le
  · rw [hphase]
    exact h.phase

namespace Console

/-! ## What is kept -/

/-- The console is whole, and its machine safe. Frames are counted no faster than lines are drawn,
and no cycle is counted that has not been spent. -/
structure IsSafe (tv : Television) (spent dots : Nat) (c : Console) : Prop where
  whole : c.IsWhole tv dots
  machine : c.machine.IsSafe
  frames : Television.dotsPerLine * c.frames + c.beam.dot ≤ dots
  cycles : c.cpu.cycles ≤ spent

variable {c : Console} {tv : Television} {spent dots : Nat}

theorem isSafe_reset (htelevision : c.television = tv) (htimed : c.IsTimed)
    (hclock : c.clock.fault = false) (hbus : c.machine.bus.IsWhole)
    (hapu : c.machine.bus.apu.IsSound) (powerCycle : Bool) (spent : Nat) :
    (c.reset powerCycle).IsSafe tv spent 0 := by
  have whole := isWhole_reset htelevision htimed hclock hbus powerCycle
  obtain ⟨low, high, -, -, hreset⟩ := reset_eq_restarted hbus.slot powerCycle
  rw [hreset] at whole ⊢
  refine ⟨whole, ⟨Bus.isSafe_restarted hbus hapu powerCycle, ?_, Nat.zero_lt_succ _⟩,
    Nat.le_refl 0, Nat.zero_le spent⟩
  exact ⟨fun t ht ↦ absurd ht (Option.some_ne_none t).symm, Nat.le_of_ble_eq_true rfl⟩

theorem isSafe_powerOn (tv : Television) : (powerOn tv).IsSafe tv 0 0 :=
  isSafe_reset (c := ⟨tv, .powerOn tv .empty, { ratio := tv.cyclesPerDot }, 1.0⟩) rfl ⟨rfl, rfl⟩
    rfl ⟨trivial, rfl, rfl, rfl⟩ (Apu.isSound_powerOn tv) true 0

theorem allPass_powerOnChecks (tv : Television) :
    AllPass ((Bus.powerOn tv .empty).resetChecks true) :=
  Bus.allPass_resetChecks (b := .powerOn tv .empty) ⟨trivial, rfl, rfl, rfl⟩
    (Apu.isSound_powerOn tv) true

/-- Nothing void comes of what passes its checks. -/
theorem IsSafe.faulted_eq_false (h : c.IsSafe tv spent dots) : c.faulted = false := by
  rw [faulted, Bus.faulted, h.whole.clock, h.whole.bus.fault, h.machine.bus.apu.pacer.fault]
  rfl

/-- The dots and with them the frames are bounded by the cycles. -/
theorem IsSafe.frames_lt (h : c.IsSafe tv spent dots) (hspent : spent < cycleLimit) :
    c.frames + 1 < Width.w64.limit := by
  have hframes := h.frames
  have hcycles := h.cycles
  obtain ⟨-, hlt, hbalance, -⟩ := h.whole.paced
  rw [h.whole.television] at hlt hbalance
  rw [Television.dotsPerLine] at hframes
  rw [cycleLimit] at hspent
  rw [Width.limit]
  cases tv with
  | ntsc =>
    change c.clock.accumulator < 3 at hlt
    change 3 * c.cpu.cycles + c.clock.accumulator = dots * 1 at hbalance
    omega
  | pal =>
    change c.clock.accumulator < 16 at hlt
    change 16 * c.cpu.cycles + c.clock.accumulator = dots * 5 at hbalance
    omega

/-- The beam does not end a frame before it has been on a whole line. -/
theorem frames_stepDot (h : Television.dotsPerLine * c.frames + c.beam.dot ≤ dots) :
    Television.dotsPerLine * c.stepDot.2.frames + c.stepDot.2.beam.dot ≤ dots + 1 := by
  rw [frames, c.beam_stepDot.1]
  rw [frames] at h
  rw [Television.dotsPerLine] at h ⊢
  rcases c.beam.advance_cases c.machine.bus.ppu.controls.rendering with
    ⟨-, -, -, hadvance⟩ | ⟨-, hadvance⟩ | ⟨-, -, hadvance⟩ | ⟨hlast, -, hadvance⟩
  all_goals
    rw [hadvance]
    dsimp only
    omega

/-! ## Dots -/

/-- No machine in a dot has counted the cycles that are still due. -/
theorem cycles_startsOf_lt {n : Nat} {m s : Machine} (hs : s ∈ startsOf n m) :
    s.cpu.cycles < m.cpu.cycles + n := by
  induction n generalizing m with
  | zero => exact absurd hs List.not_mem_nil
  | succ n ih =>
    rcases List.mem_cons.mp hs with rfl | hrest
    · omega
    · have hnext : m.sharedCycle.cpu.cycles = m.cpu.cycles + 1 := m.cycles_cycle
      have hless := ih hrest
      omega

theorem IsSafe.pictured (h : c.IsSafe tv spent dots) : c.pictured.IsSafe :=
  h.machine.of_eq h.machine.bus.clockPicture rfl rfl

theorem IsSafe.stepDot (h : c.IsSafe tv spent dots) :
    c.stepDot.2.IsSafe tv (spent + c.clock.tick.1) (dots + 1) where
  whole := h.whole.stepDot
  machine :=
    (runCycles_preserves (P := Machine.IsSafe) (fun _ ↦ Machine.IsSafe.sharedCycle)
      h.pictured).1
  frames := frames_stepDot h.frames
  cycles := by
    rw [cycles_stepDot]
    exact Nat.add_le_add_right h.cycles _

theorem IsSafe.allPass_tickChecks (h : c.IsSafe tv spent dots) : AllPass c.clock.tickChecks := by
  have hlt := h.whole.paced.accumulator_lt
  have hratio := h.whole.paced.ratio
  rw [RatioClock.tickChecks, hratio, allPass_cons, allPass_singleton, passes_fits, passes_divide]
  refine ⟨?_, Nat.ne_of_gt c.television.denominator_pos⟩
  have hsmall : c.television.cyclesPerDot.denominator + c.television.cyclesPerDot.numerator <
      0x100 := by
    cases c.television <;> decide
  rw [Width.limit]
  omega

theorem IsSafe.allPass_dotChecks (h : c.IsSafe tv spent dots)
    (hspent : spent + c.clock.tick.1 < cycleLimit) : AllPass c.dotChecks := by
  have hframes := h.frames_lt (Nat.lt_of_le_of_lt (Nat.le_add_right _ _) hspent)
  refine AllPass.append (AllPass.append ?_ h.allPass_tickChecks) (allPass_flatMap.mpr ?_)
  · exact c.machine.bus.ppu.allPass_tickChecks h.machine.bus.slot h.machine.bus.onFrame hframes
      h.machine.bus.selected
  · intro m hm
    have hsafe := (runCycles_preserves (P := Machine.IsSafe) (n := c.clock.tick.1)
      (fun _ ↦ Machine.IsSafe.sharedCycle) h.pictured).2 m hm
    have hcount : m.cpu.cycles < c.cpu.cycles + c.clock.tick.1 :=
      cycles_startsOf_lt (m := c.pictured) hm
    have hcycles := h.cycles
    refine hsafe.allPass_sharedChecks ?_
    rw [cycleLimit] at hspent
    rw [Width.limit]
    omega

/-- The dots of a frame pass their checks, one after the other. -/
theorem IsSafe.finishFrameWithin (limit : Nat) (h : c.IsSafe tv spent dots)
    (hspent : spent + cyclesDue (frameDots limit c) < cycleLimit) :
    AllPass ((frameDots limit c).flatMap dotChecks) ∧
      ∃ dots', (Console.finishFrameWithin limit c).IsSafe tv
        (spent + cyclesDue (frameDots limit c)) dots' := by
  induction limit generalizing c spent dots with
  | zero => exact ⟨allPass_nil, dots, h⟩
  | succ limit ih =>
    rw [frameDots, cyclesDue, ← Nat.add_assoc] at hspent ⊢
    rw [List.flatMap_cons, Console.finishFrameWithin]
    have hfirst := h.allPass_dotChecks (Nat.lt_of_le_of_lt (Nat.le_add_right _ _) hspent)
    dsimp only
    split
    case isTrue hdone =>
      rw [if_pos hdone] at hspent
      exact ⟨hfirst.append allPass_nil, dots + 1, h.stepDot⟩
    case isFalse hgoes =>
      rw [if_neg hgoes] at hspent
      obtain ⟨hrest, hend⟩ := ih h.stepDot hspent
      exact ⟨hfirst.append hrest, hend⟩

/-- The checks of a frame are not cut off: the last of its dots is the one that ends it. -/
theorem getLast?_frameDots {limit : Nat} (h : c.beam.IsOnFrame) (hlimit : c.beam.dotsLeft ≤ limit) :
    ∃ last, (frameDots limit c).getLast? = some last ∧ last.stepDot.1 = true ∧
      Console.finishFrameWithin limit c = last.stepDot.2 := by
  induction limit generalizing c with
  | zero => exact absurd h.dotsLeft_pos (Nat.not_lt.mpr hlimit)
  | succ limit ih =>
    obtain ⟨hbeam, hdone⟩ := c.beam_stepDot
    rw [frameDots, Console.finishFrameWithin]
    dsimp only
    split
    case isTrue hends => exact ⟨c, rfl, hends, rfl⟩
    case isFalse hgoes =>
      have hless : c.stepDot.2.beam.dotsLeft < c.beam.dotsLeft := by
        rcases h.advance_end c.machine.bus.ppu.controls.rendering with
          ⟨hends, -⟩ | ⟨-, -, hless⟩
        · exact absurd (hdone.trans hends) hgoes
        · rw [hbeam]
          exact hless
      have hnext := h.advance c.machine.bus.ppu.controls.rendering
      rw [← hbeam] at hnext
      obtain ⟨last, hlast, hends, hfinish⟩ := ih hnext (by omega)
      exact ⟨last, by rw [List.getLast?_cons, hlast]; rfl, hends, hfinish⟩

/-! ## Every command -/

theorem IsSafe.replaceSlot (h : c.IsSafe tv spent dots) {slot : Slot} (hslot : slot.IsSafe) :
    AllPass ({ c.machine.bus with slot }.resetChecks true) ∧
      (c.replaceSlot slot).IsSafe tv spent 0 := by
  have hbus := h.whole.bus.withSlot hslot
  have hapu := h.machine.bus.apu
  exact ⟨Bus.allPass_resetChecks hbus hapu true,
    isSafe_reset (c := c.modifyBus fun b ↦ { b with slot }) h.whole.television
      ⟨h.whole.paced.ratio, h.whole.paced.beam⟩ h.whole.clock hbus hapu true spent⟩

theorem IsSafe.modifyBus (h : c.IsSafe tv spent dots) {change : Bus → Bus}
    (hbus : (change c.machine.bus).IsSafe)
    (hbeam : (change c.machine.bus).ppu.beam = c.machine.bus.ppu.beam) :
    (c.modifyBus change).IsSafe tv spent dots := by
  refine ⟨h.whole.modifyBus hbus.toIsWhole hbeam, h.machine.of_eq hbus rfl rfl, ?_, h.cycles⟩
  change Television.dotsPerLine * (change c.machine.bus).ppu.beam.frames +
    (change c.machine.bus).ppu.beam.dot ≤ dots
  rw [hbeam]
  exact h.frames

theorem IsSafe.perform (h : c.IsSafe tv spent dots) (command : Command)
    (hrate : ∀ rate, command = .setSampleRate rate → rate ≤ tv.cpuFrequency)
    (hspent : spent + cyclesDue (command.dots c) < cycleLimit) :
    AllPass (command.checks c) ∧
      ∃ dots', (command.perform c).IsSafe tv (spent + cyclesDue (command.dots c)) dots' := by
  have safe := h.machine.bus
  cases command with
  | stepDot =>
    exact ⟨(h.allPass_dotChecks hspent).append allPass_nil, dots + 1, h.stepDot⟩
  | finishFrame => exact h.finishFrameWithin _ hspent
  | reset powerCycle =>
    exact ⟨Bus.allPass_resetChecks h.whole.bus safe.apu powerCycle, 0,
      isSafe_reset h.whole.television h.whole.paced.toIsTimed h.whole.clock h.whole.bus safe.apu
        powerCycle spent⟩
  | insert bytes =>
    have hparse := Image.allPass_parseChecks bytes
    rw [Command.checks, insertChecks]
    cases hslot : Slot.ofBytes bytes with
    | error e =>
      rw [perform_insert_of_error hslot]
      exact ⟨hparse.append allPass_nil, dots, h⟩
    | ok slot =>
      rw [perform_insert_of_ok hslot]
      obtain ⟨hreset, hnext⟩ := h.replaceSlot (Slot.isSafe_ofBytes hslot)
      exact ⟨hparse.append hreset, 0, hnext⟩
  | eject =>
    have hempty : Slot.empty.IsSafe := trivial
    obtain ⟨hreset, hnext⟩ := h.replaceSlot hempty
    exact ⟨hreset, 0, hnext⟩
  | readMemory addr =>
    have hread : (c.modifyBus fun b ↦ (b.read addr).2).IsSafe tv spent dots :=
      h.modifyBus (safe.read addr) (Bus.beam_read _ addr)
    exact ⟨safe.allPass_readChecks addr, dots, hread⟩
  | usePad i command =>
    have hpads : (c.modifyBus fun b ↦
        { b with
          pads :=
            b.pads.setIfInBounds i (command.perform (b.pads.get i)) }).IsSafe tv spent dots :=
      h.modifyBus (safe.withPads _) rfl
    exact ⟨allPass_cons.mpr ⟨i.isLt, command.allPass_checks _⟩, dots, hpads⟩
  | setRegisters registers =>
    exact ⟨allPass_nil, dots, h.whole.setRegisters registers, h.machine.of_eq safe rfl rfl,
      h.frames, h.cycles⟩
  | request interrupt =>
    have hlines : (c.modifyBus fun b ↦
        { b with lines := b.lines.request interrupt }).IsSafe tv spent dots :=
      h.modifyBus (safe.withLines _) rfl
    exact ⟨allPass_nil, dots, hlines⟩
  | setSampleRate rate =>
    have htelevision : c.machine.bus.apu.television = tv :=
      (h.whole.bus.television.trans h.whole.paced.beam).trans h.whole.television
    have hset : (c.machine.bus.apu.setSampleRate rate).IsSound :=
      safe.apu.setSampleRate (htelevision ▸ hrate rate rfl)
    have hnext : (c.modifyBus fun b ↦ { b with apu := b.apu.setSampleRate rate }).IsSafe tv spent
        dots := h.modifyBus (safe.withApu hset rfl rfl) rfl
    exact ⟨allPass_nil, dots, hnext⟩
  | setSpeed speed =>
    exact ⟨allPass_nil, dots, h.whole.setSpeed speed, h.machine, h.frames, h.cycles⟩
  | readSamples dest count =>
    refine ⟨Apu.allPass_readSamplesChecks _ dest count, dots, ?_⟩
    cases hread : c.machine.bus.apu.readSamples dest count with
    | error e =>
      simp only [Command.perform, hread]
      exact h
    | ok read =>
      obtain ⟨samples, happly, hcapacity⟩ := Apu.readSamples_eq_ok hread
      simp only [Command.perform, hread, happly]
      have hsound := safe.apu
      exact h.modifyBus (safe.withApu ⟨hsound.sequencer, hsound.pulse1, hsound.pulse2,
        hsound.noise, hsound.pacer⟩ rfl hcapacity) rfl
  | clearSamples =>
    have hsound := safe.apu
    have hclear : (c.modifyBus fun b ↦ { b with apu := b.apu.clearSamples }).IsSafe tv spent
        dots :=
      h.modifyBus (safe.withApu ⟨hsound.sequencer, hsound.pulse1, hsound.pulse2, hsound.noise,
        hsound.pacer⟩ rfl rfl) rfl
    exact ⟨allPass_nil, dots, hclear⟩

/-! ## Every history -/

theorem IsSafe.run (history : List Command) (h : c.IsSafe tv spent dots)
    (hrates : ∀ rate, .setSampleRate rate ∈ history → rate ≤ tv.cpuFrequency)
    (hcycles : spent + cyclesOf history c < cycleLimit) :
    AllPass (historyChecks history c) ∧
      ∃ dots', (Console.run history c).IsSafe tv (spent + cyclesOf history c) dots' := by
  induction history generalizing c spent dots with
  | nil => exact ⟨allPass_nil, dots, h⟩
  | cons command rest ih =>
    rw [cyclesOf, ← Nat.add_assoc] at hcycles ⊢
    obtain ⟨hfirst, dots', hnext⟩ := h.perform command
      (fun rate heq ↦ hrates rate (heq ▸ List.mem_cons_self))
      (Nat.lt_of_le_of_lt (Nat.le_add_right _ _) hcycles)
    obtain ⟨hrest, hend⟩ :=
      ih hnext (fun rate hmem ↦ hrates rate (List.mem_cons_of_mem _ hmem)) hcycles
    exact ⟨hfirst.append hrest, hend⟩

/-- Whatever is done with a console, whatever is inserted and whatever program runs, every step
that could fail succeeds, if no sample rate above the frequency of the processor is asked for and
there are fewer than `2 ^ 63` cycles. Nothing it does is void. -/
theorem allPass_runChecks (tv : Television) (history : List Command)
    (hrates : ∀ rate, .setSampleRate rate ∈ history → rate ≤ tv.cpuFrequency)
    (hcycles : cyclesOf history (powerOn tv) < 0x8000000000000000) :
    AllPass (runChecks tv history) ∧ (run history (powerOn tv)).faulted = false := by
  rw [← cycleLimit, ← Nat.zero_add (cyclesOf _ _)] at hcycles
  obtain ⟨hchecks, dots, hend⟩ := (isSafe_powerOn tv).run history hrates hcycles
  exact ⟨(allPass_powerOnChecks tv).append hchecks, hend.faulted_eq_false⟩

/-- A refused image, three dots with a cycle in them, and a button that is read back. -/
def shortHistory : List Command :=
  [.setSampleRate 48000, .insert #[0x4e], .stepDot, .stepDot, .stepDot,
    .usePad (Fin.last 1) (.setButton .a true), .readMemory 0x4017]

theorem allPass_runChecks_shortHistory :
    cyclesOf shortHistory (powerOn .ntsc) = 1 ∧ AllPass (runChecks .ntsc shortHistory) ∧
      (run shortHistory (powerOn .ntsc)).faulted = false := by
  have hcycles : cyclesOf shortHistory (powerOn .ntsc) = 1 := by decide +kernel
  have hrates : ∀ rate, .setSampleRate rate ∈ shortHistory →
      rate ≤ Television.ntsc.cpuFrequency := by
    intro rate hrate
    simp only [shortHistory, List.mem_cons, Command.setSampleRate.injEq, reduceCtorEq, or_false,
      List.not_mem_nil] at hrate
    rw [hrate]
    decide
  exact ⟨hcycles, allPass_runChecks .ntsc shortHistory hrates (by rw [hcycles]; decide)⟩

end Console

end Famicom
