import Famicom.Proofs.Safety.Check
import Famicom.Sound.Apu

/-!
# The sound chip does not crash

The checks of a cycle of the sound chip and of a write to one of its registers. What they rest on is
different in every part of the chip (`Apu.IsSound`): the volume of an envelope has four bits; the
period of a pulse channel has eleven, also after its sweep has moved it, so that the period the
sweep aims at next fits into sixteen; the count of the sequencer never passes the step that it waits
for; and the phase of the pacer stays below the frequency of the processor, as long as the sample
rate is not above it.

The mixer works on binary32 numbers, where no operation can fail, and is left out.
-/

namespace Famicom

open Check

/-! ## Envelopes and counters -/

namespace Envelope

/-- The checks of a quarter-frame clock. -/
def clockChecks (e : Envelope) : List Check :=
  if e.startPending then []
  else if e.divider = 0 then if 0 < e.decay then [.subtract e.decay 1] else []
  else [.subtract e.divider 1]

/-- The volume has four bits. -/
structure IsSound (e : Envelope) : Prop where
  period : e.period ≤ peak
  decay : e.decay ≤ peak

theorem allPass_clockChecks (e : Envelope) : AllPass e.clockChecks := by
  refine allPass_unless fun _ ↦ allPass_ite.mpr ⟨fun _ ↦ ?_, fun hne ↦ ?_⟩
  · exact allPass_if fun hpos ↦ allPass_singleton.mpr hpos
  · exact allPass_singleton.mpr (Nat.pos_of_ne_zero hne)

namespace IsSound

variable {e : Envelope}

theorem volume_le (h : e.IsSound) : e.volume ≤ peak := by
  rw [volume]
  split
  · exact h.period
  · exact h.decay

theorem write (h : e.IsSound) (value : UInt8) : (e.write value).IsSound :=
  ⟨Nat.le_of_lt_succ (Nat.mod_lt _ (by decide)), h.decay⟩

theorem restart (h : e.IsSound) : e.restart.IsSound := ⟨h.period, h.decay⟩

theorem clock (h : e.IsSound) : e.clock.IsSound := by
  obtain ⟨period, decay⟩ := h
  rw [Envelope.clock]
  split
  · exact ⟨period, Nat.le_refl _⟩
  · split
    · refine ⟨period, ?_⟩
      change (if 0 < e.decay then e.decay - 1 else if e.looping then peak else 0) ≤ peak
      split
      · omega
      · split <;> omega
    · exact ⟨period, decay⟩

end IsSound

end Envelope

namespace LengthCounter

variable (c : LengthCounter)

/-- The checks of a half-frame clock. -/
def clockChecks : List Check :=
  if !c.halted && 0 < c.value then [.subtract c.value 1] else []

/-- The checks of starting a note. -/
def loadChecks (value : UInt8) : List Check :=
  if c.enabled then [.index 32 (value.toNat / 8)] else []

theorem allPass_clockChecks : AllPass c.clockChecks := by
  refine allPass_if fun h ↦ allPass_singleton.mpr ?_
  exact of_decide_eq_true (Bool.and_eq_true_iff.mp h).2

theorem allPass_loadChecks (value : UInt8) : AllPass (c.loadChecks value) := by
  refine allPass_if fun _ ↦ allPass_singleton.mpr ?_
  have := value.toNat_lt
  rw [passes_index]
  omega

end LengthCounter

/-! ## Pulse channels -/

namespace Pulse

/-- The checks of finding the period that the sweep aims at. -/
def targetChecks (p : Pulse) : List Check :=
  .shift 16 p.sweep.shift ::
    if p.sweep.negate then
      match p.unit with
      | .one => [.fits .w16 (p.change + 1)]
      | .two => []
    else [.fits .w16 (p.timerPeriod + p.change)]

/-- The checks of finding out whether the channel is silent. -/
def mutedChecks (p : Pulse) : List Check :=
  if p.timerPeriod < leastPeriod then [] else p.targetChecks

/-- The checks of a half-frame clock of the sweep. -/
def sweepChecks (p : Pulse) : List Check :=
  (if p.sweep.isDue then p.mutedChecks ++ if p.isMuted then [] else p.targetChecks else []) ++
  if p.sweep.divider = 0 ∨ p.sweep.reload then [] else [.subtract p.sweep.divider 1]

/-- The checks of a processor cycle. -/
def timerChecks (p : Pulse) : List Check :=
  if !p.skipped then [] else if p.timer = 0 then [] else [.subtract p.timer 1]

/-- The checks of finding the level. -/
def outputChecks (p : Pulse) : List Check :=
  if p.length.isActive then
    p.mutedChecks ++
    if p.isMuted then []
    else
      [.index 4 p.duty, .index 8 p.step,
        .fits .w8 ((dutyWaves.get p.duty).get p.step * p.envelope.volume)]
  else []

/-- The checks of a write to one of the registers. -/
def writeChecks (p : Pulse) (register : Fin 4) (value : UInt8) : List Check :=
  if register.val = 3 then p.length.loadChecks value else []

/-- The period has eleven bits and the shift of the sweep three. -/
structure IsSound (p : Pulse) : Prop where
  timerPeriod : p.timerPeriod ≤ greatestPeriod
  shift : p.sweep.shift < 8
  envelope : p.envelope.IsSound

theorem isSound_ofUnit (unit : PulseUnit) : IsSound { unit } :=
  ⟨Nat.zero_le _, Nat.zero_lt_succ _, Nat.zero_le _, Nat.zero_le _⟩

theorem change_le (p : Pulse) : p.change ≤ p.timerPeriod := Nat.shiftRight_le _ _

theorem dutyWave_le (duty : Fin 4) (step : Fin 8) : (dutyWaves.get duty).get step ≤ 1 := by
  revert duty step
  decide

theorem allPass_timerChecks (p : Pulse) : AllPass p.timerChecks :=
  allPass_unless fun _ ↦ allPass_unless fun hne ↦ allPass_singleton.mpr (Nat.pos_of_ne_zero hne)

theorem allPass_writeChecks (p : Pulse) (register : Fin 4) (value : UInt8) :
    AllPass (p.writeChecks register value) :=
  allPass_if fun _ ↦ p.length.allPass_loadChecks value

namespace IsSound

variable {p : Pulse}

theorem allPass_targetChecks (h : p.IsSound) : AllPass p.targetChecks := by
  have period := h.timerPeriod
  have change := p.change_le
  rw [greatestPeriod] at period
  refine allPass_cons.mpr ⟨Nat.lt_trans h.shift (by decide), ?_⟩
  refine allPass_ite.mpr ⟨fun _ ↦ ?_, fun _ ↦ ?_⟩
  · split
    · simp only [allPass_cons, passes_fits, allPass_nil, and_true, Width.limit]
      omega
    · exact allPass_nil
  · simp only [allPass_cons, passes_fits, allPass_nil, and_true, Width.limit]
    omega

theorem allPass_mutedChecks (h : p.IsSound) : AllPass p.mutedChecks :=
  allPass_unless fun _ ↦ h.allPass_targetChecks

theorem allPass_sweepChecks (h : p.IsSound) : AllPass p.sweepChecks := by
  refine (allPass_if fun _ ↦ h.allPass_mutedChecks.append ?_).append
    (allPass_unless fun hcounts ↦ ?_)
  · exact allPass_unless fun _ ↦ h.allPass_targetChecks
  · exact allPass_singleton.mpr (Nat.pos_of_ne_zero fun h ↦ hcounts (Or.inl h))

theorem allPass_outputChecks (h : p.IsSound) : AllPass p.outputChecks := by
  refine allPass_if fun _ ↦ h.allPass_mutedChecks.append ?_
  refine allPass_unless fun _ ↦ ?_
  have product : (dutyWaves.get p.duty).get p.step * p.envelope.volume ≤ 1 * Envelope.peak :=
    Nat.mul_le_mul (dutyWave_le _ _) h.envelope.volume_le
  rw [Envelope.peak] at product
  refine allPass_cons.mpr ⟨p.duty.isLt, allPass_cons.mpr ⟨p.step.isLt, allPass_singleton.mpr ?_⟩⟩
  rw [passes_fits, Width.limit]
  omega

theorem write (h : p.IsSound) (register : Fin 4) (value : UInt8) :
    (p.write register value).IsSound := by
  obtain ⟨period, shift, envelope⟩ := h
  have byte := value.toNat_lt
  rw [greatestPeriod] at period
  unfold Pulse.write
  split
  · exact ⟨period, shift, envelope.write value⟩
  · exact ⟨period, Nat.mod_lt _ (by decide), envelope⟩
  · refine ⟨?_, shift, envelope⟩
    change p.timerPeriod / 0x100 * 0x100 + value.toNat ≤ 0x7ff
    omega
  · refine ⟨?_, shift, envelope.restart⟩
    change p.timerPeriod % 0x100 + value.toNat % 8 * 0x100 ≤ 0x7ff
    omega

theorem clockEnvelope (h : p.IsSound) : p.clockEnvelope.IsSound :=
  ⟨h.timerPeriod, h.shift, h.envelope.clock⟩

theorem clockLength (h : p.IsSound) : p.clockLength.IsSound := ⟨h.timerPeriod, h.shift, h.envelope⟩

theorem clockTimer (h : p.IsSound) : p.clockTimer.IsSound := by
  obtain ⟨period, shift, envelope⟩ := h
  rw [Pulse.clockTimer]
  split
  · exact ⟨period, shift, envelope⟩
  · split <;> exact ⟨period, shift, envelope⟩

/-- The sweep takes no period of more bits: it would be silent then. -/
theorem clockSweep (h : p.IsSound) : p.clockSweep.IsSound := by
  refine ⟨?_, ?_, h.envelope⟩
  · change (if p.sweep.isDue && !p.isMuted then p.targetPeriod else p.timerPeriod) ≤ greatestPeriod
    split
    case isTrue hmoves =>
      simp only [isMuted, Bool.and_eq_true, Bool.not_eq_true', Bool.or_eq_false_iff,
        decide_eq_false_iff_not] at hmoves
      exact Nat.le_of_not_lt hmoves.2.2
    case isFalse => exact h.timerPeriod
  · change p.sweep.clockDivider.shift < 8
    rw [Sweep.clockDivider]
    split <;> exact h.shift

end IsSound

end Pulse

/-! ## Triangle and noise -/

namespace Triangle

variable (t : Triangle)

/-- The checks of a processor cycle. -/
def timerChecks : List Check :=
  if t.timer = 0 then if t.isRunning then [.fits .w8 (t.step + 1)] else []
  else [.subtract t.timer 1]

/-- The checks of a quarter-frame clock of the linear counter. -/
def linearChecks : List Check :=
  if t.linearReload then [] else if 0 < t.linear then [.subtract t.linear 1] else []

/-- The checks of a write to one of the registers. -/
def writeChecks (register : Fin 4) (value : UInt8) : List Check :=
  if register.val = 3 then t.length.loadChecks value else []

theorem allPass_timerChecks : AllPass t.timerChecks := by
  refine allPass_ite.mpr ⟨fun _ ↦ allPass_if fun _ ↦ ?_, fun hne ↦ ?_⟩
  · have step := t.step.isLt
    simp only [allPass_cons, passes_fits, allPass_nil, and_true, Width.limit]
    omega
  · exact allPass_singleton.mpr (Nat.pos_of_ne_zero hne)

theorem allPass_linearChecks : AllPass t.linearChecks :=
  allPass_unless fun _ ↦ allPass_if fun hpos ↦ allPass_singleton.mpr hpos

theorem allPass_writeChecks (register : Fin 4) (value : UInt8) :
    AllPass (t.writeChecks register value) :=
  allPass_if fun _ ↦ t.length.allPass_loadChecks value

end Triangle

namespace Noise

variable (n : Noise)

/-- The checks of a processor cycle. -/
def timerChecks : List Check :=
  if n.timer = 0 then [.subtract n.timerPeriod 1, .shift 16 (if n.short then 6 else 1)]
  else [.subtract n.timer 1]

/-- The checks of a write to one of the registers. -/
def writeChecks (register : Fin 4) (value : UInt8) : List Check :=
  if register.val = 2 then [.index 16 (value.toNat % 16)]
  else if register.val = 3 then n.length.loadChecks value
  else []

theorem timerPeriod_pos : 0 < n.timerPeriod := by
  have hpos : ∀ rate : Fin 16, 0 < n.television.noisePeriods[rate] := by
    cases n.television <;> decide
  exact hpos n.rate

theorem allPass_timerChecks : AllPass n.timerChecks := by
  refine allPass_ite.mpr ⟨fun _ ↦ ?_, fun hne ↦ ?_⟩
  · refine allPass_cons.mpr ⟨n.timerPeriod_pos, allPass_singleton.mpr ?_⟩
    rw [passes_shift]
    split <;> decide
  · exact allPass_singleton.mpr (Nat.pos_of_ne_zero hne)

theorem allPass_writeChecks (register : Fin 4) (value : UInt8) :
    AllPass (n.writeChecks register value) :=
  allPass_ite.mpr ⟨fun _ ↦ allPass_singleton.mpr (Nat.mod_lt _ (by decide)),
    fun _ ↦ allPass_if fun _ ↦ n.length.allPass_loadChecks value⟩

variable {n}

theorem isSound_write (h : n.envelope.IsSound) (register : Fin 4) (value : UInt8) :
    (n.write register value).envelope.IsSound := by
  unfold write
  split
  · exact h.write value
  · exact h
  · exact h
  · exact h.restart

theorem isSound_clockTimer (h : n.envelope.IsSound) : n.clockTimer.envelope.IsSound := by
  rw [clockTimer]
  split <;> exact h

end Noise

/-- The checks of a write to one of the registers of the delta channel. -/
def Delta.writeChecks (register : Fin 4) (value : UInt8) : List Check :=
  if register.val = 3 then [.fits .w16 (value.toNat * 16 + 1)] else []

theorem Delta.allPass_writeChecks (register : Fin 4) (value : UInt8) :
    AllPass (writeChecks register value) := by
  have byte := value.toNat_lt
  refine allPass_if fun _ ↦ ?_
  simp only [allPass_cons, passes_fits, allPass_nil, and_true, Width.limit]
  omega

/-! ## Sequencer and pacer -/

namespace Sequencer

/-- The checks of a processor cycle. -/
def clockChecks (s : Sequencer) : List Check :=
  [.fits .w32 (s.cycle + 1), .index 6 s.next] ++
  if s.cycle + 1 = s.threshold then [.fits .w64 (s.next + 1)] else []

/-- The count has not reached the next step. -/
def IsSound (s : Sequencer) : Prop := s.cycle < s.threshold

/-- The steps come one after the other, and the first is not at the start. -/
theorem steps_lt (tv : Television) (mode : SequencerMode) :
    0 < (tv.sequencerSteps mode)[firstStep] ∧
      ∀ step : Fin 6, (tv.sequencerSteps mode)[step] < 0x10000 ∧
        (if step.val = 5 then 0 else (tv.sequencerSteps mode)[step]) <
          (tv.sequencerSteps mode)[stepAfter step] := by
  cases tv <;> cases mode <;> decide

theorem isSound_reset (tv : Television) : IsSound { television := tv } := (steps_lt tv .fourStep).1

namespace IsSound

variable {s : Sequencer}

theorem allPass_clockChecks (h : s.IsSound) : AllPass s.clockChecks := by
  have cycle : s.cycle < s.threshold := h
  have threshold : s.threshold < 0x10000 := ((steps_lt s.television s.mode).2 s.next).1
  have next := s.next.isLt
  refine AllPass.append ?_ (allPass_if fun _ ↦ ?_)
  · simp only [allPass_cons, passes_fits, passes_index, allPass_nil, and_true, Width.limit]
    omega
  · simp only [allPass_cons, passes_fits, allPass_nil, and_true, Width.limit]
    omega

theorem write (s : Sequencer) (value : UInt8) : (s.write value).2.IsSound :=
  (steps_lt s.television (if bit value 7 then .fiveStep else .fourStep)).1

theorem clearIrq (h : s.IsSound) : s.clearIrq.IsSound := h

/-- A count that reaches its step waits for the next one from then on. -/
theorem clock (h : s.IsSound) : s.clock.2.IsSound := by
  have cycle : s.cycle < s.threshold := h
  have hsteps := (steps_lt s.television s.mode).2
  rw [Sequencer.clock]
  split
  case isTrue hbelow =>
    change s.cycle + 1 < s.threshold
    omega
  case isFalse hreached =>
    have reached : s.cycle + 1 = s.threshold := Decidable.not_not.mp hreached
    change (if s.next.val = 5 then 0 else s.cycle + 1) <
      (s.television.sequencerSteps s.mode)[stepAfter s.next]
    rw [reached]
    exact (hsteps s.next).2

end IsSound

end Sequencer

namespace SamplePacer

/-- The rate is not above the frequency, and the phase has not reached it. -/
structure IsSound (p : SamplePacer) (frequency : Nat) : Prop where
  rate : p.rate ≤ frequency
  phase : p.phase < frequency
  fault : p.fault = false

/-- The checks of a processor cycle, up to whether a sample is due. -/
def clockChecks (p : SamplePacer) (frequency : Nat) : List Check :=
  .fits .w32 (p.phase + p.rate) ::
    if frequency ≤ p.phase + p.rate then [.subtract (p.phase + p.rate) frequency] else []

variable {p : SamplePacer} {frequency : Nat}

theorem IsSound.allPass_clockChecks (h : p.IsSound frequency) (hfrequency : frequency < 0x1000000) :
    AllPass (p.clockChecks frequency) := by
  obtain ⟨rate, phase, -⟩ := h
  refine allPass_cons.mpr ⟨?_, allPass_if fun hdue ↦ ?_⟩
  · rw [passes_fits, Width.limit]
    omega
  · exact allPass_singleton.mpr hdue

theorem IsSound.clock (h : p.IsSound frequency) (hfrequency : frequency < 0x1000000) :
    (p.clock frequency).2.IsSound frequency := by
  obtain ⟨rate, phase, fault⟩ := h
  have fits : (p.fault || decide (phaseLimit ≤ p.phase + p.rate)) = false := by
    rw [fault, Bool.false_or, decide_eq_false_iff_not, phaseLimit]
    omega
  rw [SamplePacer.clock]
  split
  case isTrue =>
    refine ⟨rate, ?_, fits⟩
    change p.phase + p.rate - frequency < frequency
    omega
  case isFalse hdue => exact ⟨rate, Nat.lt_of_not_le hdue, fits⟩

end SamplePacer

theorem Television.cpuFrequency_bounds (tv : Television) :
    44100 ≤ tv.cpuFrequency ∧ tv.cpuFrequency < 0x1000000 := by cases tv <;> decide

/-! ## The chip -/

namespace Apu

/-- The checks of a quarter frame. -/
def quarterChecks (a : Apu) : List Check :=
  a.pulse1.envelope.clockChecks ++ a.pulse2.envelope.clockChecks ++ a.triangle.linearChecks ++
    a.noise.envelope.clockChecks

/-- The checks of a half frame. -/
def halfChecks (a : Apu) : List Check :=
  a.pulse1.length.clockChecks ++ a.pulse2.length.clockChecks ++ a.triangle.length.clockChecks ++
    a.noise.length.clockChecks ++ a.pulse1.clockLength.sweepChecks ++
    a.pulse2.clockLength.sweepChecks

/-- The checks of doing what the sequencer asks for. -/
def applyChecks (a : Apu) (event : FrameEvent) : List Check :=
  (if event.quarter then a.quarterChecks else []) ++
  if event.half then (if event.quarter then a.clockQuarter else a).halfChecks else []

/-- The checks of moving the timers. -/
def timersChecks (a : Apu) : List Check :=
  a.pulse1.timerChecks ++ a.pulse2.timerChecks ++ a.triangle.timerChecks ++ a.noise.timerChecks

/-- The checks of finding the levels. -/
def levelsChecks (a : Apu) : List Check :=
  a.pulse1.outputChecks ++ a.pulse2.outputChecks ++ [.index 32 a.triangle.step]

/-- The checks of taking a sample, if one is due. -/
def sampleChecks (a : Apu) : List Check :=
  a.pacer.clockChecks a.television.cpuFrequency ++
  if (a.pacer.clock a.television.cpuFrequency).1 then a.levelsChecks else []

/-- The checks of a processor cycle. -/
def clockChecks (a : Apu) : List Check :=
  a.sequencer.clockChecks ++
  { a with sequencer := a.sequencer.clock.2 }.applyChecks a.sequencer.clock.1 ++
  a.clockSequencer.timersChecks ++ a.clockSequencer.clockTimers.sampleChecks

/-- The checks of a processor write. -/
def writeChecks (a : Apu) (addr : UInt16) (value : UInt8) : List Check :=
  let offset := addr.toNat - 0x4000
  let register := low2 offset
  if addr < 0x4000 then []
  else if offset < 0x04 then a.pulse1.writeChecks register value
  else if offset < 0x08 then a.pulse2.writeChecks register value
  else if offset < 0x0c then a.triangle.writeChecks register value
  else if offset < 0x10 then a.noise.writeChecks register value
  else if offset < 0x14 then Delta.writeChecks register value
  else if offset = 0x17 then
    { a with sequencer := (a.sequencer.write value).2 }.applyChecks (a.sequencer.write value).1
  else []

/-- What keeps the chip's arithmetic within its registers. -/
structure IsSound (a : Apu) : Prop where
  sequencer : a.sequencer.IsSound
  pulse1 : a.pulse1.IsSound
  pulse2 : a.pulse2.IsSound
  noise : a.noise.envelope.IsSound
  pacer : a.pacer.IsSound a.television.cpuFrequency

theorem isSound_powerOn (tv : Television) : (powerOn tv).IsSound where
  sequencer := Sequencer.isSound_reset tv
  pulse1 := Pulse.isSound_ofUnit .one
  pulse2 := Pulse.isSound_ofUnit .two
  noise := ⟨Nat.zero_le _, Nat.zero_le _⟩
  pacer := ⟨tv.cpuFrequency_bounds.1, by cases tv <;> decide, rfl⟩

theorem allPass_quarterChecks (a : Apu) : AllPass a.quarterChecks :=
  (((Envelope.allPass_clockChecks _).append (Envelope.allPass_clockChecks _)).append
    (Triangle.allPass_linearChecks _)).append (Envelope.allPass_clockChecks _)

theorem allPass_timersChecks (a : Apu) : AllPass a.timersChecks :=
  (((Pulse.allPass_timerChecks _).append (Pulse.allPass_timerChecks _)).append
    (Triangle.allPass_timerChecks _)).append (Noise.allPass_timerChecks _)

namespace IsSound

variable {a : Apu}

theorem reset (h : a.IsSound) : a.reset.IsSound where
  sequencer := Sequencer.isSound_reset a.television
  pulse1 := Pulse.isSound_ofUnit .one
  pulse2 := Pulse.isSound_ofUnit .two
  noise := ⟨Nat.zero_le _, Nat.zero_le _⟩
  pacer := ⟨h.pacer.rate, Nat.lt_of_le_of_lt (Nat.zero_le _) h.pacer.phase, h.pacer.fault⟩

theorem setSampleRate (h : a.IsSound) {rate : Nat} (hrate : rate ≤ a.television.cpuFrequency) :
    (a.setSampleRate rate).IsSound where
  sequencer := h.sequencer
  pulse1 := h.pulse1
  pulse2 := h.pulse2
  noise := h.noise
  pacer := ⟨hrate, Nat.lt_of_le_of_lt (Nat.zero_le _) h.pacer.phase, h.pacer.fault⟩

theorem allPass_halfChecks (h : a.IsSound) : AllPass a.halfChecks :=
  (((((LengthCounter.allPass_clockChecks _).append (LengthCounter.allPass_clockChecks _)).append
    (LengthCounter.allPass_clockChecks _)).append (LengthCounter.allPass_clockChecks _)).append
    h.pulse1.clockLength.allPass_sweepChecks).append h.pulse2.clockLength.allPass_sweepChecks

theorem clockQuarter (h : a.IsSound) : a.clockQuarter.IsSound :=
  ⟨h.sequencer, h.pulse1.clockEnvelope, h.pulse2.clockEnvelope, h.noise.clock, h.pacer⟩

theorem clockHalf (h : a.IsSound) : a.clockHalf.IsSound :=
  ⟨h.sequencer, h.pulse1.clockLength.clockSweep, h.pulse2.clockLength.clockSweep, h.noise, h.pacer⟩

theorem clockQuarter_if (h : a.IsSound) (quarter : Bool) :
    (if quarter then a.clockQuarter else a).IsSound := by
  split
  · exact h.clockQuarter
  · exact h

theorem apply (h : a.IsSound) (event : FrameEvent) : (a.apply event).IsSound := by
  rw [Apu.apply]
  split
  · exact (h.clockQuarter_if event.quarter).clockHalf
  · exact h.clockQuarter_if event.quarter

theorem allPass_applyChecks (h : a.IsSound) (event : FrameEvent) :
    AllPass (a.applyChecks event) :=
  (allPass_if fun _ ↦ a.allPass_quarterChecks).append
    (allPass_if fun _ ↦ (h.clockQuarter_if event.quarter).allPass_halfChecks)

theorem withSequencer (h : a.IsSound) {sequencer : Sequencer} (hsequencer : sequencer.IsSound) :
    IsSound { a with sequencer } := ⟨hsequencer, h.pulse1, h.pulse2, h.noise, h.pacer⟩

theorem clockSequencer (h : a.IsSound) : a.clockSequencer.IsSound :=
  (h.withSequencer h.sequencer.clock).apply _

theorem clockTimers (h : a.IsSound) : a.clockTimers.IsSound :=
  ⟨h.sequencer, h.pulse1.clockTimer, h.pulse2.clockTimer, Noise.isSound_clockTimer h.noise,
    h.pacer⟩

theorem sample (h : a.IsSound) : a.sample.IsSound := by
  have pacer := h.pacer.clock a.television.cpuFrequency_bounds.2
  unfold Apu.sample
  dsimp only
  split <;> exact ⟨h.sequencer, h.pulse1, h.pulse2, h.noise, pacer⟩

theorem clock (h : a.IsSound) : a.clock.IsSound := h.clockSequencer.clockTimers.sample

theorem allPass_sampleChecks (h : a.IsSound) : AllPass a.sampleChecks := by
  refine (h.pacer.allPass_clockChecks a.television.cpuFrequency_bounds.2).append
    (allPass_if fun _ ↦ ?_)
  exact (h.pulse1.allPass_outputChecks.append h.pulse2.allPass_outputChecks).append
    (allPass_singleton.mpr a.triangle.step.isLt)

theorem allPass_clockChecks (h : a.IsSound) : AllPass a.clockChecks :=
  ((h.sequencer.allPass_clockChecks.append
    ((h.withSequencer h.sequencer.clock).allPass_applyChecks _)).append
    (allPass_timersChecks _)).append h.clockSequencer.clockTimers.allPass_sampleChecks

theorem readStatus (h : a.IsSound) : a.readStatus.2.IsSound :=
  h.withSequencer h.sequencer.clearIrq

theorem write (h : a.IsSound) (addr : UInt16) (value : UInt8) : (a.write addr value).IsSound := by
  have hsame := h
  obtain ⟨sequencer, pulse1, pulse2, noise, pacer⟩ := h
  unfold Apu.write
  dsimp only
  generalize low2 (addr.toNat - 0x4000) = register
  split
  · exact hsame
  split
  · exact ⟨sequencer, pulse1.write _ value, pulse2, noise, pacer⟩
  split
  · exact ⟨sequencer, pulse1, pulse2.write _ value, noise, pacer⟩
  split
  · exact ⟨sequencer, pulse1, pulse2, noise, pacer⟩
  split
  · exact ⟨sequencer, pulse1, pulse2, Noise.isSound_write noise register value, pacer⟩
  split
  · exact ⟨sequencer, pulse1, pulse2, noise, pacer⟩
  split
  · exact ⟨sequencer, ⟨pulse1.timerPeriod, pulse1.shift, pulse1.envelope⟩,
      ⟨pulse2.timerPeriod, pulse2.shift, pulse2.envelope⟩, noise, pacer⟩
  split
  · exact (hsame.withSequencer (Sequencer.IsSound.write a.sequencer value)).apply _
  · exact hsame

theorem allPass_writeChecks (h : a.IsSound) (addr : UInt16) (value : UInt8) :
    AllPass (a.writeChecks addr value) := by
  rw [writeChecks]
  split
  · exact allPass_nil
  split
  · exact a.pulse1.allPass_writeChecks _ value
  split
  · exact a.pulse2.allPass_writeChecks _ value
  split
  · exact a.triangle.allPass_writeChecks _ value
  split
  · exact a.noise.allPass_writeChecks _ value
  split
  · exact Delta.allPass_writeChecks _ value
  split
  · exact (h.withSequencer (Sequencer.IsSound.write a.sequencer value)).allPass_applyChecks _
  · exact allPass_nil

end IsSound

end Apu

end Famicom
