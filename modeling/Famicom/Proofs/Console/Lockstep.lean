import Famicom.Proofs.Console.Nmi
import Famicom.Proofs.Picture.Scan

/-!
# Lockstep

Processor, sound chip and picture chip keep step without a rounding error, and a frame always ends.

## Cycles

The clock holds the time that no cycle has been given for yet. With the cycles of the processor
since the last reset it makes up for the dots since then,

```text
denominator · cycles + accumulator = dots · numerator,
```

and what is left in the accumulator is less than a cycle (`Console.IsPaced`). Every cycle that is
due counts, whatever the processor does in it (`Machine.cycles_cycle`).

## Frames

The beam alone decides when a frame ends, and the processor does not move it. From any place of a
frame the end comes within `Beam.dotsLeft` dots, as every dot but the last brings that number down,
whether a dot is left out or not (`Console.finishFrameWithin_eq_stepDots`). On its way the beam
comes to the start of every line (`Console.Reachable.exists_line`).
-/

namespace Famicom

namespace Console

variable {c : Console}

theorem length_startsOf (n : Nat) (m : Machine) : (startsOf n m).length = n := by
  induction n generalizing m with
  | zero => rfl
  | succ n ih => rw [startsOf, List.length_cons, ih]

theorem cycles_runCycles (n : Nat) (m : Machine) :
    (runCycles n m).cpu.cycles = m.cpu.cycles + n := by
  induction n generalizing m with
  | zero => rfl
  | succ n ih =>
    rw [runCycles_succ, ih]
    change m.cycle.cpu.cycles + n = _
    rw [m.cycles_cycle]
    omega

/-- The buses that the cycles of the sound chip in the next dot start from. Each is what a cycle of
the processor leaves. -/
def clocked (c : Console) : List Bus := c.cycled.map fun m ↦ m.cycle.bus

theorem runCycles_eq_foldl (n : Nat) (m : Machine) :
    runCycles n m =
      ((startsOf n m).map fun m ↦ m.cycle.bus).foldl (fun m b ↦ ⟨m.cycle.cpu, b.clockSound⟩) m := by
  induction n generalizing m with
  | zero => rfl
  | succ n ih =>
    rw [runCycles_succ, ih, startsOf, List.map_cons, List.foldl_cons]
    rfl

/-- A dot is the dot of the picture chip and the cycles listed. The sound chip is clocked on each of
the buses and nowhere else. -/
theorem machine_stepDot_eq_foldl (c : Console) :
    c.stepDot.2.machine =
      c.clocked.foldl (fun m b ↦ ⟨m.cycle.cpu, b.clockSound⟩) c.pictured := by
  rw [machine_stepDot, runCycles_eq_foldl]
  rfl

theorem length_clocked (c : Console) : c.clocked.length = c.clock.tick.1 := by
  rw [clocked, List.length_map, cycled, length_startsOf]

theorem cycles_stepDot (c : Console) :
    c.stepDot.2.cpu.cycles = c.cpu.cycles + c.clock.tick.1 :=
  cycles_runCycles _ c.pictured

/-! ## The dots since the last reset -/

/-- The console has run for `dots` dots since it was switched on, reset, or given or relieved of a
cartridge, and its sound chip has been clocked `sound` times. In between memory may be read from
outside and a controller changed. -/
inductive Elapsed : (dots sound : Nat) → Console → Prop where
  | restarted {c : Console} (h : Restarted c) : Elapsed 0 0 c
  | stepDot {dots sound : Nat} {c : Console} (h : Elapsed dots sound c) :
    Elapsed (dots + 1) (sound + c.clocked.length) c.stepDot.2
  | readMemory {dots sound : Nat} {c : Console} (h : Elapsed dots sound c) (addr : UInt16) :
    Elapsed dots sound (c.modifyBus fun b ↦ (b.read addr).2)
  | modifyPad {dots sound : Nat} {c : Console} {i : Nat} {change : Pad → Pad} {bus : Bus}
    (h : Elapsed dots sound c) (hbus : c.machine.bus.modifyPad? i change = some bus) :
    Elapsed dots sound (c.modifyBus fun _ ↦ bus)

/-- Clock and cycles make up for the dots, and the sound chip has kept up with the processor. -/
structure IsPaced (dots sound : Nat) (c : Console) : Prop extends c.IsTimed where
  accumulator_lt : c.clock.accumulator < c.television.cyclesPerDot.denominator
  balance :
    c.television.cyclesPerDot.denominator * c.cpu.cycles + c.clock.accumulator =
      dots * c.television.cyclesPerDot.numerator
  sound : sound = c.cpu.cycles

variable {dots sound : Nat}

theorem isPaced_reset (h : c.IsTimed) (powerCycle : Bool) :
    (c.reset powerCycle).IsPaced 0 0 := by
  have htimed := isTimed_reset h powerCycle
  obtain ⟨_, _, _, _, _, hreset⟩ := c.reset_eq powerCycle
  rw [hreset] at htimed ⊢
  exact ⟨htimed, c.television.denominator_pos, (Nat.zero_mul _).symm, rfl⟩

theorem IsPaced.stepDot (h : c.IsPaced dots sound) :
    c.stepDot.2.IsPaced (dots + 1) (sound + c.clocked.length) := by
  obtain ⟨htimed, hlt, hbalance, hsound⟩ := h
  have hdivision := Nat.div_add_mod (c.clock.accumulator + c.clock.ratio.numerator)
    c.clock.ratio.denominator
  have htick : c.television.cyclesPerDot.denominator * c.clock.tick.1 +
      c.clock.tick.2.accumulator =
        c.clock.accumulator + c.television.cyclesPerDot.numerator := by
    rw [← htimed.ratio]
    exact hdivision
  refine ⟨isTimed_stepDot htimed, ?_, ?_, ?_⟩
  · have hmod := Nat.mod_lt (c.clock.accumulator + c.clock.ratio.numerator)
      c.television.denominator_pos
    rw [← htimed.ratio] at hmod
    rw [television_stepDot, ← htimed.ratio]
    exact hmod
  · rw [television_stepDot, cycles_stepDot, Nat.mul_add, Nat.add_assoc]
    change _ + (_ + c.clock.tick.2.accumulator) = _
    rw [htick, ← Nat.add_assoc, hbalance, Nat.succ_mul]
  · rw [cycles_stepDot, length_clocked, hsound]

theorem Elapsed.isPaced (h : Elapsed dots sound c) : c.IsPaced dots sound := by
  induction h with
  | restarted h =>
    obtain ⟨d, powerCycle, htimed, rfl⟩ := h.eq_reset
    exact isPaced_reset htimed powerCycle
  | stepDot _ ih => exact ih.stepDot
  | @readMemory _ _ c _ addr ih =>
    obtain ⟨⟨hratio, hbeam⟩, hlt, hbalance, hsound⟩ := ih
    refine ⟨⟨hratio, ?_⟩, hlt, hbalance, hsound⟩
    change (c.machine.bus.read addr).2.ppu.beam.television = _
    rw [Bus.beam_read]
    exact hbeam
  | modifyPad _ hbus ih =>
    obtain ⟨pads, rfl⟩ := modifyPad?_cases hbus
    obtain ⟨⟨hratio, hbeam⟩, hlt, hbalance, hsound⟩ := ih
    exact ⟨⟨hratio, hbeam⟩, hlt, hbalance, hsound⟩

/-- The cycles since the last reset, one in three dots or five in sixteen, rounded down. -/
theorem IsPaced.cycles_eq (h : c.IsPaced dots sound) :
    c.cpu.cycles =
      match c.television with
      | .ntsc => dots / 3
      | .pal => 5 * dots / 16 := by
  obtain ⟨-, hlt, hbalance, -⟩ := h
  cases htelevision : c.television with
  | ntsc =>
    rw [htelevision] at hlt hbalance
    change c.clock.accumulator < 3 at hlt
    change 3 * c.cpu.cycles + c.clock.accumulator = dots * 1 at hbalance
    dsimp only
    omega
  | pal =>
    rw [htelevision] at hlt hbalance
    change c.clock.accumulator < 16 at hlt
    change 16 * c.cpu.cycles + c.clock.accumulator = dots * 5 at hbalance
    dsimp only
    omega

/-! ## The end of a frame -/

theorem beam_stepDot (c : Console) :
    c.stepDot.2.beam = (c.beam.advance c.machine.bus.ppu.controls.rendering).2 ∧
      c.stepDot.1 = (c.beam.advance c.machine.bus.ppu.controls.rendering).1 := by
  obtain ⟨-, -, hdone⟩ := c.machine.bus.ppu.tick_eq c.machine.bus.slot.readPpu
  refine ⟨?_, hdone⟩
  rw [beam, machine_stepDot, (Machine.ppu_runCycles _ _).1, pictured, Bus.beam_clockPicture]
  rfl

theorem Reachable.isOnFrame (h : Reachable c) : c.beam.IsOnFrame := by
  refine (h.bus_invariant (P := fun b ↦ b.ppu.beam.IsOnFrame) ?_ ?_ ?_ ?_ (fun b pads ↦ id)).1
  · intro c powerCycle
    obtain ⟨_, _, _, _, _, hreset⟩ := c.reset_eq powerCycle
    rw [hreset]
    exact c.beam.isOnFrame_reset
  · intro b hb
    rw [Bus.beam_clockPicture]
    exact hb.advance _
  · intro m hm
    rwa [m.ppu_sharedCycle.1]
  · intro b addr hb
    rwa [b.beam_read]

/-- A frame ends with the first dot that says so, and within the dots that are left of it. -/
theorem finishFrameWithin_eq_stepDots {limit : Nat} (h : c.beam.IsOnFrame)
    (hlimit : c.beam.dotsLeft ≤ limit) :
    ∃ n, 0 < n ∧ n ≤ c.beam.dotsLeft ∧
      (∀ j < n, (c.stepDots j).2.stepDot.1 = true ↔ j + 1 = n) ∧
      finishFrameWithin limit c = (c.stepDots n).2 ∧
      (c.stepDots n).2.beam.line = -1 ∧ (c.stepDots n).2.beam.dot = 0 ∧
      (c.stepDots n).2.frames = c.frames + 1 := by
  have hpos := h.dotsLeft_pos
  induction limit generalizing c with
  | zero => omega
  | succ limit ih =>
    obtain ⟨hbeam, hdone⟩ := c.beam_stepDot
    rcases h.advance_end c.machine.bus.ppu.controls.rendering with
      ⟨hends, hline, hdot, hframes⟩ | ⟨hgoes, hframes, hless⟩
    · rw [hends] at hdone
      rw [← hbeam] at hline hdot hframes
      refine ⟨1, Nat.one_pos, hpos, fun j hj ↦ ?_, ?_, hline, hdot, hframes⟩
      · obtain rfl : j = 0 := by omega
        exact ⟨fun _ ↦ rfl, fun _ ↦ hdone⟩
      · rw [finishFrameWithin]
        exact if_pos hdone
    · rw [hgoes] at hdone
      have hnext := h.advance c.machine.bus.ppu.controls.rendering
      rw [← hbeam] at hnext hless hframes
      obtain ⟨n, hn, hle, hends, hfinish, hline, hdot, hcount⟩ :=
        ih hnext (by omega) hnext.dotsLeft_pos
      rw [← stepDots_succ] at hline hdot hcount
      refine ⟨n + 1, Nat.succ_pos n, by omega, fun j hj ↦ ?_, ?_, hline, hdot, ?_⟩
      · cases j with
        | zero =>
          rw [stepDots_zero, hdone]
          exact ⟨fun h ↦ Bool.noConfusion h, fun h ↦ by omega⟩
        | succ j =>
          rw [stepDots_succ, hends j (by omega)]
          omega
      · rw [finishFrameWithin, stepDots_succ, ← hfinish]
        exact if_neg fun hdone' ↦ Bool.false_ne_true (hdone.symm.trans hdone')
      · exact hcount.trans (congrArg (· + 1) hframes)

/-- From a line above the beam comes to the start of a line of the same frame. -/
theorem exists_line (h : c.beam.IsOnFrame) {line : Int} (hzero : 0 ≤ line)
    (hlast : line ≤ c.beam.lastLine) (habove : c.beam.line < line) :
    ∃ n, (c.stepDots n).2.beam.line = line ∧ (c.stepDots n).2.beam.dot = 0 := by
  -- the induction is on the dots left of the frame
  obtain ⟨left, hleft⟩ : ∃ left, c.beam.dotsLeft = left := ⟨_, rfl⟩
  induction left using Nat.strongRecOn generalizing c with
  | ind left ih =>
    obtain ⟨hbeam, -⟩ := c.beam_stepDot
    have hgo {beam : Beam}
        (hmove : c.beam.advance c.machine.bus.ppu.controls.rendering = (false, beam))
        (hsame : beam.television = c.beam.television) (hline : beam.line ≤ line)
        (hdot : beam.line = line → beam.dot = 0) :
        ∃ n, (c.stepDots n).2.beam.line = line ∧ (c.stepDots n).2.beam.dot = 0 := by
      have hless := h.dotsLeft_advance hmove
      have hframe := h.advance c.machine.bus.ppu.controls.rendering
      rw [hmove] at hbeam hframe
      dsimp only at hbeam hframe
      rw [← hbeam] at hless hframe hline hdot hsame
      rcases Int.lt_or_eq_of_le hline with hbefore | hthere
      · rw [Beam.lastLine_eq, ← hsame] at hlast
        obtain ⟨n, hn⟩ := ih _ (hleft ▸ hless) hframe hlast hbefore rfl
        rw [← stepDots_succ] at hn
        exact ⟨n + 1, hn⟩
      · exact ⟨1, hthere, hdot hthere⟩
    rcases c.beam.advance_cases c.machine.bus.ppu.controls.rendering with
      ⟨-, -, -, hmove⟩ | ⟨-, hmove⟩ | ⟨-, -, hmove⟩ | ⟨-, hend, -⟩
    · exact hgo hmove rfl hzero fun _ ↦ rfl
    · exact hgo hmove rfl (Int.le_of_lt habove) fun hthere ↦ absurd hthere (Int.ne_of_lt habove)
    · exact hgo hmove rfl (Int.add_one_le_of_lt habove) fun _ ↦ rfl
    · omega

/-! ## Every reachable console -/

theorem Elapsed.stepDots (h : Elapsed dots sound c) (n : Nat) :
    ∃ sound', Elapsed (dots + n) sound' (c.stepDots n).2 := by
  induction n generalizing dots sound c with
  | zero => exact ⟨sound, h⟩
  | succ n ih =>
    obtain ⟨sound', hrest⟩ := ih h.stepDot
    rw [Nat.succ_add_eq_add_succ] at hrest
    rw [stepDots_succ]
    exact ⟨sound', hrest⟩

theorem Reachable.stepDots (h : Reachable c) (n : Nat) : Reachable (c.stepDots n).2 := by
  induction n generalizing c with
  | zero => exact h
  | succ n ih => rw [stepDots_succ]; exact ih h.stepDot

/-- The beam comes to the start of every line of the picture and of the vertical blank. -/
theorem Reachable.exists_line (h : Reachable c) (line : Int) (hzero : 0 ≤ line)
    (hlast : line ≤ 260) :
    ∃ n, (c.stepDots n).2.beam.line = line ∧ (c.stepDots n).2.beam.dot = 0 := by
  obtain ⟨a, -, -, -, -, hstart, -, -⟩ :=
    finishFrameWithin_eq_stepDots h.isOnFrame (Nat.le_refl c.beam.dotsLeft)
  have hlines := Beam.television_lines (c.stepDots a).2.beam.television
  obtain ⟨n, hn⟩ := Console.exists_line (h.stepDots a).isOnFrame hzero
    (by rw [Beam.lastLine_eq]; omega) (by rw [hstart]; omega)
  rw [← stepDots_add] at hn
  exact ⟨a + n, hn⟩

theorem television_stepDots (n : Nat) (c : Console) :
    (c.stepDots n).2.television = c.television := by
  induction n generalizing c with
  | zero => rfl
  | succ n ih => rw [stepDots_succ, ih, television_stepDot]

theorem dotsLeft_le (h : c.IsTimed) (hframe : c.beam.IsOnFrame) :
    c.beam.dotsLeft ≤ c.television.dotsPerFrame := by
  have hge := hframe.line_ge
  have hlines := Beam.television_lines c.television
  have htelevision : c.beam.television = c.television := h.beam
  rw [Beam.dotsLeft, Beam.lastLine_eq, htelevision, Television.dotsPerFrame, Television.dotsPerLine]
  omega

/-- A frame is some number of dots, so every reachable console has come from a reset by dots. -/
theorem Reachable.elapsed (h : Reachable c) : ∃ dots sound, Elapsed dots sound c := by
  induction h with
  | powerOn tv => exact ⟨0, 0, .restarted (.powerOn tv)⟩
  | stepDot _ ih =>
    obtain ⟨dots, sound, hc⟩ := ih
    exact ⟨_, _, hc.stepDot⟩
  | finishFrame hc ih =>
    obtain ⟨dots, sound, helapsed⟩ := ih
    obtain ⟨n, -, -, -, hfinish, -⟩ :=
      finishFrameWithin_eq_stepDots hc.isOnFrame (dotsLeft_le hc.isTimed hc.isOnFrame)
    obtain ⟨sound', hend⟩ := helapsed.stepDots n
    rw [Console.finishFrame, hfinish]
    exact ⟨_, _, hend⟩
  | reset hc powerCycle _ => exact ⟨0, 0, .restarted (.reset hc powerCycle)⟩
  | insert hc hd _ => exact ⟨0, 0, .restarted (.insert hc hd)⟩
  | eject hc _ => exact ⟨0, 0, .restarted (.eject hc)⟩
  | readMemory _ addr ih =>
    obtain ⟨dots, sound, hc⟩ := ih
    exact ⟨_, _, hc.readMemory addr⟩
  | modifyPad _ hbus ih =>
    obtain ⟨dots, sound, hc⟩ := ih
    exact ⟨_, _, hc.modifyPad hbus⟩

/-- A reachable console has come from a reset by some number of dots, and whatever that number is,
processor and sound chip have had one cycle in three of them, or five in sixteen, rounded down: in
each dot the cycles listed come one after the other, and each ends with one of the sound chip. Its
frame ends after no more dots than a frame has, with the first dot that says so: then the beam is
where a frame starts, and one frame more is counted. -/
theorem Reachable.cycles_eq_floor (h : Reachable c) :
    (∃ dots sound, Elapsed dots sound c) ∧
      (∀ dots sound, Elapsed dots sound c →
        c.cpu.cycles = sound ∧
          sound =
            match c.television with
            | .ntsc => dots / 3
            | .pal => 5 * dots / 16) ∧
      (c.stepDot.2.machine =
        c.clocked.foldl (fun m b ↦ ⟨m.cycle.cpu, b.clockSound⟩)
          ⟨c.machine.cpu, c.machine.bus.clockPicture.2⟩) ∧
      ∃ n ≤ 341 * c.television.lines,
        (∀ j < n, (c.stepDots j).2.stepDot.1 = true ↔ j + 1 = n) ∧
          c.finishFrame = (c.stepDots n).2 ∧ c.finishFrame.beam.line = -1 ∧
          c.finishFrame.beam.dot = 0 ∧ c.finishFrame.frames = c.frames + 1 := by
  refine ⟨h.elapsed, fun dots sound helapsed ↦ ?_, c.machine_stepDot_eq_foldl, ?_⟩
  · have hpaced := helapsed.isPaced
    exact ⟨hpaced.sound.symm, hpaced.sound.trans hpaced.cycles_eq⟩
  · have hle := dotsLeft_le h.isTimed h.isOnFrame
    obtain ⟨n, -, hn, hends, hfinish, hline, hdot, hframes⟩ :=
      finishFrameWithin_eq_stepDots h.isOnFrame hle
    rw [Console.finishFrame, hfinish]
    exact ⟨n, Nat.le_trans hn hle, hends, rfl, hline, hdot, hframes⟩

/-- Four dots after switching on, on the standard with five cycles in sixteen dots. -/
theorem cycles_eq_floor_powerOn :
    Reachable ((powerOn .pal).stepDots 4).2 ∧
      (∃ sound, Elapsed 4 sound ((powerOn .pal).stepDots 4).2 ∧
        ((powerOn .pal).stepDots 4).2.cpu.cycles = sound ∧ sound = 1) ∧
      ((powerOn .pal).stepDots 4).2.finishFrame.frames =
        ((powerOn .pal).stepDots 4).2.frames + 1 := by
  have hreachable := Reachable.stepDots (.powerOn .pal) 4
  obtain ⟨sound, helapsed⟩ := (Elapsed.restarted (.powerOn .pal)).stepDots 4
  obtain ⟨-, hcycles, -, n, -, -, -, -, -, hframes⟩ := Reachable.cycles_eq_floor hreachable
  obtain ⟨hkept, hfloor⟩ := hcycles 4 sound helapsed
  rw [television_stepDots] at hfloor
  exact ⟨hreachable, ⟨sound, helapsed, hkept, hfloor⟩, hframes⟩

end Console

end Famicom
