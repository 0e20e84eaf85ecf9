import Famicom.Proofs.Safety.Sound

/-!
# The ranges of the channels

What happens to a channel comes from two sides: a program writes its registers and opens or closes
its gate, and the chip clocks its parts. No order of these takes a channel out of its ranges.

The period of a pulse channel is where that is not plain. It has eleven bits, but the sum that its
sweep aims at may have twelve, and a difference may fall below zero. Neither ever becomes the
period: a sum that does not fit silences the channel, and a channel that is silent is not swept; and
a period that can be heard is at least eight, while the sweep takes away at most half of it and one
more. So what the sweep does to the period is exact (`Pulse.timerPeriod_clockSweep`).
-/

namespace Famicom

open Check

/-- What can happen to a channel. An event for a part that a channel lacks leaves it as it is. -/
inductive ChannelEvent where
  | write (register : Fin 4) (value : UInt8)
  | enable (enabled : Bool)
  | timer
  /-- A quarter frame, for the envelope or, in the triangle, for the linear counter. -/
  | envelope
  | length
  | sweep
  deriving DecidableEq, Repr

/-! ## Pulse channels -/

/-- What a unit takes away beside the shifted period. -/
def PulseUnit.borrow : PulseUnit → Nat
  | one => 1
  | two => 0

namespace Pulse

/-- The channel after an event. -/
def act (p : Pulse) : ChannelEvent → Pulse
  | .write register value => p.write register value
  | .enable enabled => p.setEnabled enabled
  | .timer => p.clockTimer
  | .envelope => p.clockEnvelope
  | .length => p.clockLength
  | .sweep => p.clockSweep

/-- The channel after some events. -/
def run (p : Pulse) (events : List ChannelEvent) : Pulse := events.foldl act p

/-- The next half frame moves the period. -/
def Sweeps (p : Pulse) : Prop :=
  p.sweep.enabled = true ∧ 0 < p.sweep.shift ∧ p.sweep.divider = 0 ∧ p.isMuted = false

/-- The timer, too, has eleven bits. -/
structure InRange (p : Pulse) : Prop extends p.IsSound where
  timer : p.timer ≤ greatestPeriod

variable {p : Pulse}

theorem unit_act (p : Pulse) (event : ChannelEvent) : (p.act event).unit = p.unit := by
  cases event with
  | write register value =>
    change (p.write register value).unit = p.unit
    unfold write
    split <;> rfl
  | timer =>
    change p.clockTimer.unit = p.unit
    unfold clockTimer
    split
    · rfl
    · split <;> rfl
  | enable | envelope | length | sweep => rfl

theorem unit_run (p : Pulse) (events : List ChannelEvent) : (p.run events).unit = p.unit :=
  List.foldlRecOn (motive := fun q ↦ q.unit = p.unit) events act rfl
    fun q h event _ ↦ (q.unit_act event).trans h

theorem timer_write (p : Pulse) (register : Fin 4) (value : UInt8) :
    (p.write register value).timer = p.timer := by
  unfold write
  split <;> rfl

namespace InRange

theorem fresh (unit : PulseUnit) : InRange { unit } := ⟨isSound_ofUnit unit, Nat.zero_le _⟩

theorem act (h : p.InRange) (event : ChannelEvent) : (p.act event).InRange := by
  cases event with
  | write register value =>
    exact ⟨h.toIsSound.write register value,
      Nat.le_trans (Nat.le_of_eq (p.timer_write register value)) h.timer⟩
  | enable enabled => exact ⟨⟨h.timerPeriod, h.shift, h.envelope⟩, h.timer⟩
  | timer =>
    refine ⟨h.toIsSound.clockTimer, ?_⟩
    have hperiod := h.timerPeriod
    have htimer := h.timer
    change p.clockTimer.timer ≤ greatestPeriod
    unfold clockTimer
    split
    · exact htimer
    · split
      · exact hperiod
      · exact Nat.le_trans (Nat.sub_le _ _) htimer
  | envelope => exact ⟨h.toIsSound.clockEnvelope, h.timer⟩
  | length => exact ⟨h.toIsSound.clockLength, h.timer⟩
  | sweep => exact ⟨h.toIsSound.clockSweep, h.timer⟩

theorem run (h : p.InRange) (events : List ChannelEvent) : (p.run events).InRange :=
  List.foldlRecOn events Pulse.act h fun _ h event _ ↦ h.act event

end InRange

theorem IsSound.output_le (h : p.IsSound) : p.output ≤ 15 := by
  rw [output]
  split
  · calc (dutyWaves.get p.duty).get p.step * p.envelope.volume
      _ ≤ 1 * Envelope.peak := Nat.mul_le_mul (dutyWave_le _ _) h.envelope.volume_le
      _ = 15 := rfl
  · exact Nat.zero_le _

theorem output_of_isMuted (h : p.isMuted = true) : p.output = 0 := by
  rw [output, h]
  exact if_neg (by simp)

theorem isMuted_iff : p.isMuted = true ↔ p.timerPeriod < 8 ∨ 0x7ff < p.targetPeriod := by
  rw [isMuted, Bool.or_eq_true, decide_eq_true_iff, decide_eq_true_iff]
  rfl

theorem sweeps_iff : p.Sweeps ↔ (p.sweep.isDue && !p.isMuted) = true := by
  simp only [Sweeps, Sweep.isDue, Bool.and_eq_true, Bool.not_eq_true', beq_iff_eq, bne_iff_ne,
    Nat.pos_iff_ne_zero]
  tauto

/-- A shifted period is at most half of what it was. -/
theorem change_le_half (h : 0 < p.sweep.shift) : p.change ≤ p.timerPeriod / 2 := by
  obtain ⟨shift, hshift⟩ := Nat.exists_eq_add_of_le' h
  rw [change, hshift, Nat.shiftRight_succ]
  exact Nat.div_le_div_right (Nat.shiftRight_le _ _)

/-- The sweep of a channel that can be heard takes away no more than there is. -/
theorem timerPeriod_clockSweep (h : p.Sweeps) :
    if p.sweep.negate = true then
      p.clockSweep.timerPeriod + (p.timerPeriod >>> p.sweep.shift + p.unit.borrow) = p.timerPeriod
    else p.clockSweep.timerPeriod = p.timerPeriod + p.timerPeriod >>> p.sweep.shift := by
  have hmoves : p.clockSweep.timerPeriod = p.targetPeriod := if_pos (sweeps_iff.mp h)
  have hhalf := change_le_half h.2.1
  have haudible : ¬p.timerPeriod < 8 := fun hlow ↦
    Bool.false_ne_true (h.2.2.2.symm.trans (isMuted_iff.mpr (Or.inl hlow)))
  rw [hmoves, targetPeriod, ← change]
  -- The differences are those of natural numbers. Half of a period of at least eight leaves room
  -- for the borrow, so neither is cut off at zero.
  cases p.sweep.negate with
  | false => rfl
  | true =>
    cases p.unit with
    | one =>
      change p.timerPeriod - (p.change + 1) + (p.change + 1) = p.timerPeriod
      omega
    | two =>
      change p.timerPeriod - p.change + (p.change + 0) = p.timerPeriod
      omega

theorem sweeps_of_ne (h : p.clockSweep.timerPeriod ≠ p.timerPeriod) : p.Sweeps := by
  by_contra hstill
  exact h (if_neg fun hmoves ↦ hstill (sweeps_iff.mpr hmoves))

end Pulse

/-! ## The triangle -/

namespace Triangle

/-- The channel after an event. -/
def act (t : Triangle) : ChannelEvent → Triangle
  | .write register value => t.write register value
  | .enable enabled => t.setEnabled enabled
  | .timer => t.clockTimer
  | .envelope => t.clockLinear
  | .length => t.clockLength
  | .sweep => t

/-- The channel after some events. -/
def run (t : Triangle) (events : List ChannelEvent) : Triangle := events.foldl act t

/-- Period and timer have eleven bits. -/
structure InRange (t : Triangle) : Prop where
  timerPeriod : t.timerPeriod ≤ 0x7ff
  timer : t.timer ≤ 0x7ff

namespace InRange

variable {t : Triangle}

theorem write (h : t.InRange) (register : Fin 4) (value : UInt8) :
    (t.write register value).InRange := by
  obtain ⟨hperiod, htimer⟩ := h
  have byte := value.toNat_lt
  unfold Triangle.write
  split
  · exact ⟨hperiod, htimer⟩
  · exact ⟨hperiod, htimer⟩
  · refine ⟨?_, htimer⟩
    change t.timerPeriod / 0x100 * 0x100 + value.toNat ≤ 0x7ff
    omega
  · refine ⟨?_, htimer⟩
    change t.timerPeriod % 0x100 + value.toNat % 8 * 0x100 ≤ 0x7ff
    omega

theorem clockTimer (h : t.InRange) : t.clockTimer.InRange := by
  unfold Triangle.clockTimer
  split
  · exact ⟨h.timerPeriod, h.timerPeriod⟩
  · exact ⟨h.timerPeriod, Nat.le_trans (Nat.sub_le _ _) h.timer⟩

theorem act (h : t.InRange) (event : ChannelEvent) : (t.act event).InRange := by
  cases event with
  | write register value => exact h.write register value
  | timer => exact h.clockTimer
  | enable | envelope | length | sweep => exact ⟨h.timerPeriod, h.timer⟩

theorem run (h : t.InRange) (events : List ChannelEvent) : (t.run events).InRange :=
  List.foldlRecOn events Triangle.act h fun _ h event _ ↦ h.act event

end InRange

theorem output_le (t : Triangle) : t.output ≤ 15 := by
  have hwave : ∀ step : Fin 32, triangleWave[step] ≤ 15 := by decide
  exact hwave t.step

end Triangle

/-! ## Noise -/

namespace Noise

/-- The channel after an event. -/
def act (n : Noise) : ChannelEvent → Noise
  | .write register value => n.write register value
  | .enable enabled => n.setEnabled enabled
  | .timer => n.clockTimer
  | .envelope => n.clockEnvelope
  | .length => n.clockLength
  | .sweep => n

/-- The channel after some events. -/
def run (n : Noise) (events : List ChannelEvent) : Noise := events.foldl act n

/-- The longest of the periods. -/
theorem timerPeriod_le (n : Noise) : n.timerPeriod ≤ 4068 := by
  have hle : ∀ rate : Fin 16, n.television.noisePeriods[rate] ≤ 4068 := by
    cases n.television <;> decide
  exact hle n.rate

/-- A register that is not empty does not become empty: a lone bit at its end is fed back. -/
theorem nextRegister_range (short : Bool) {register : Nat} (hpos : 0 < register)
    (hlt : register < 0x8000) :
    0 < nextRegister short register ∧ nextRegister short register < 0x8000 := by
  have hfeedback := Bool.toNat_le (feedback short register)
  refine ⟨?_, by rw [nextRegister]; omega⟩
  by_cases hone : register = 1
  · subst hone
    cases short <;> decide
  · rw [nextRegister]
    omega

/-- The timer is below the longest period, the register is not empty and has fifteen bits, and the
volume four. -/
structure InRange (n : Noise) : Prop where
  timer : n.timer < 4068
  register_pos : 0 < n.register
  register_lt : n.register < 0x8000
  envelope : n.envelope.IsSound

namespace InRange

variable {n : Noise}

theorem fresh (tv : Television) : InRange { television := tv } :=
  ⟨(by decide : 0 < 4068), Nat.one_pos, (by decide : 1 < 0x8000), Nat.zero_le _, Nat.zero_le _⟩

theorem write (h : n.InRange) (register : Fin 4) (value : UInt8) :
    (n.write register value).InRange := by
  have henvelope := isSound_write h.envelope register value
  unfold Noise.write at henvelope ⊢
  split <;> exact ⟨h.timer, h.register_pos, h.register_lt, henvelope⟩

theorem clockTimer (h : n.InRange) : n.clockTimer.InRange := by
  obtain ⟨htimer, hpos, hlt, henvelope⟩ := h
  unfold Noise.clockTimer
  split
  · obtain ⟨hnextPos, hnextLt⟩ := nextRegister_range n.short hpos hlt
    refine ⟨?_, hnextPos, hnextLt, henvelope⟩
    have hlongest := n.timerPeriod_le
    change n.timerPeriod - 1 < 4068
    omega
  · exact ⟨Nat.lt_of_le_of_lt (Nat.sub_le _ _) htimer, hpos, hlt, henvelope⟩

theorem act (h : n.InRange) (event : ChannelEvent) : (n.act event).InRange := by
  cases event with
  | write register value => exact h.write register value
  | timer => exact h.clockTimer
  | envelope => exact ⟨h.timer, h.register_pos, h.register_lt, h.envelope.clock⟩
  | enable | length | sweep => exact ⟨h.timer, h.register_pos, h.register_lt, h.envelope⟩

theorem run (h : n.InRange) (events : List ChannelEvent) : (n.run events).InRange :=
  List.foldlRecOn events Noise.act h fun _ h event _ ↦ h.act event

end InRange

theorem output_le {n : Noise} (h : n.envelope.IsSound) : n.output ≤ 15 := by
  rw [output]
  split
  · exact h.volume_le
  · exact Nat.zero_le _

end Noise

/-! ## The delta channel -/

namespace Delta

/-- The channel after an event. It has registers only. -/
def act (d : Delta) : ChannelEvent → Delta
  | .write register value => d.write register value
  | _ => d

/-- The channel after some events. -/
def run (d : Delta) (events : List ChannelEvent) : Delta := events.foldl act d

theorem output_act_le {d : Delta} (h : d.output ≤ 127) (event : ChannelEvent) :
    (d.act event).output ≤ 127 := by
  cases event with
  | write register value =>
    change (d.write register value).output ≤ 127
    unfold write
    split
    case h_2 => exact Nat.le_of_lt_succ (Nat.mod_lt _ (by decide))
    all_goals exact h
  | enable | timer | envelope | length | sweep => exact h

theorem output_run_le {d : Delta} (h : d.output ≤ 127) (events : List ChannelEvent) :
    (d.run events).output ≤ 127 :=
  List.foldlRecOn (motive := fun q ↦ q.output ≤ 127) events act h
    fun _ h event _ ↦ output_act_le h event

end Delta

/-! ## All channels -/

/-- Any events, in any order, leave a new channel in its ranges. The period of a pulse channel has
eleven bits, what its sweep aims at can be worked out in a register, and its level is looked up
inside the waveforms. The sweep moves the period only if it is enabled, has something to shift by,
its divider is at zero and the channel can be heard; a period that is lowered is lowered by exactly
the shifted period, and by one more in the first unit. The channel is silent while its period is
below eight or what the sweep aims at has more than eleven bits, also if the sweep is not enabled. -/
theorem channels_keep_ranges (events : List ChannelEvent) :
    (∀ unit : PulseUnit,
      let p := Pulse.run { unit } events
      p.timerPeriod ≤ 0x7ff ∧ AllPass p.targetChecks ∧ p.duty.val < 4 ∧ p.step.val < 8 ∧
        AllPass p.outputChecks ∧ p.output ≤ 15 ∧
        (p.clockSweep.timerPeriod ≠ p.timerPeriod → p.Sweeps) ∧
        (p.Sweeps →
          if p.sweep.negate = true then
            p.clockSweep.timerPeriod + (p.timerPeriod >>> p.sweep.shift + unit.borrow) =
              p.timerPeriod
          else p.clockSweep.timerPeriod = p.timerPeriod + p.timerPeriod >>> p.sweep.shift) ∧
        (p.timerPeriod < 8 ∨ 0x7ff < p.targetPeriod → p.output = 0)) ∧
      (Triangle.run {} events).output ≤ 15 ∧
      (∀ tv : Television, (Noise.run { television := tv } events).output ≤ 15) ∧
      (Delta.run {} events).output ≤ 127 := by
  refine ⟨fun unit ↦ ?pulse, Triangle.output_le _, fun tv ↦ ?noise, ?delta⟩
  case pulse =>
    intro p
    have hsound : p.IsSound := ((Pulse.InRange.fresh unit).run events).toIsSound
    have hunit : p.unit = unit := Pulse.unit_run _ events
    refine ⟨hsound.timerPeriod, hsound.allPass_targetChecks, p.duty.isLt, p.step.isLt,
      hsound.allPass_outputChecks, hsound.output_le, Pulse.sweeps_of_ne, fun hsweeps ↦ ?_,
      fun hmuted ↦ Pulse.output_of_isMuted (Pulse.isMuted_iff.mpr hmuted)⟩
    have hmoved := Pulse.timerPeriod_clockSweep hsweeps
    rwa [hunit] at hmoved
  case noise => exact Noise.output_le ((Noise.InRange.fresh tv).run events).envelope
  case delta => exact Delta.output_run_le (Nat.zero_le _) events

/-- A sweep down by a half, in the first unit: from `$100` to `$7f`. -/
theorem channels_keep_ranges_sweepDown :
    let p := Pulse.run { unit := .one } [.write 2 0, .write 3 1, .write 1 0x89]
    p.Sweeps ∧ p.clockSweep.timerPeriod + (0x80 + 1) = 0x100 := by
  intro p
  have hsweeps : p.Sweeps := ⟨rfl, by decide, rfl, by decide⟩
  obtain ⟨-, -, -, -, -, -, -, hmoved, -⟩ :=
    (channels_keep_ranges [.write 2 0, .write 3 1, .write 1 0x89]).1 .one
  exact ⟨hsweeps, hmoved hsweeps⟩

end Famicom
