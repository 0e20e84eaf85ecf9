import Famicom.Proofs.Sound.Divider
import Famicom.Proofs.Sound.Ranges

/-!
# The frequencies of the channels

Three channels have a timer, and each counts in its own way. All three are dividers, and what they
drive moves on once in

```text
pulse     2 * (timerPeriod + 1)    the timer moves at every second clock
triangle  timerPeriod + 1          the timer is loaded with the period
noise     timerPeriod              the timer is loaded with one less
```

clocks. The pulse steps through its waveform backwards, the triangle forwards and only while neither
of its counters stops it, and the noise shifts its register. That a shift can be seen at all needs
its register not to be empty (`Noise.nextRegister_ne`).

The count starts where a timer is loaded. A timer may still hold what a longer period left in it, but
it is within the range of the periods, so that a load is never further away than the longest one.
-/

namespace Famicom

/-! ## Pulse channels -/

namespace Pulse

/-- The next clock loads the timer. -/
def IsDue (p : Pulse) : Prop := p.skipped = true ∧ p.timer = 0

/-- A step backwards through the waveform. -/
def stepBack (step : Fin 8) : Fin 8 := low3 (step.val + 7)

/-- The timer and its skipping as one divider. -/
def toDivider (p : Pulse) : Divider (Fin 8) :=
  ⟨2 * p.timerPeriod + 1, 2 * p.timer + (!p.skipped).toNat, stepBack, p.step⟩

variable {p : Pulse}

theorem isDue_iff : p.IsDue ↔ p.toDivider.left = 0 := by
  change p.skipped = true ∧ p.timer = 0 ↔ 2 * p.timer + (!p.skipped).toNat = 0
  cases p.skipped with
  | false => simp
  | true =>
    rw [and_iff_right rfl]
    change p.timer = 0 ↔ 2 * p.timer + 0 = 0
    omega

theorem clockTimer_of_isDue (h : p.IsDue) :
    p.clockTimer =
      { p with skipped := false, timer := p.timerPeriod, step := stepBack p.step } := by
  rw [clockTimer, if_neg (by simp [h.1]), if_pos h.2]
  rfl

/-- The divider right after a load. -/
theorem toDivider_of_isDue (h : p.IsDue) :
    p.clockTimer.toDivider =
      ⟨2 * p.timerPeriod + 1, 2 * p.timerPeriod + 1, stepBack, p.clockTimer.step⟩ := by
  rw [clockTimer_of_isDue h]
  rfl

/-- A clock that loads nothing takes one from the divider, whether it is skipped or not. -/
theorem toDivider_of_not_isDue (h : ¬p.IsDue) :
    p.clockTimer.toDivider = { p.toDivider with left := p.toDivider.left - 1 } := by
  have hleft : p.toDivider.left = 2 * p.timer + (!p.skipped).toNat := rfl
  -- The divider is odd before a clock that is skipped, and even before one that moves the timer.
  cases hskipped : p.skipped with
  | false =>
    rw [hskipped] at hleft
    rw [hleft, clockTimer, if_pos (by simp [hskipped])]
    rfl
  | true =>
    have htimer : p.timer ≠ 0 := fun hzero ↦ h ⟨hskipped, hzero⟩
    have hodd : 2 * (p.timer - 1) + 1 = 2 * p.timer - 1 := by omega
    rw [hskipped] at hleft
    rw [hleft, clockTimer, if_neg (by simp [hskipped]), if_neg htimer]
    exact congrArg (Divider.mk (2 * p.timerPeriod + 1) · stepBack p.step) hodd

theorem semiconj_clockTimer : Function.Semiconj toDivider clockTimer Divider.clock := by
  intro p
  by_cases hdue : p.IsDue
  · rw [Divider.clock_of_left_eq_zero (isDue_iff.mp hdue), clockTimer_of_isDue hdue]
    rfl
  · rw [Divider.clock_of_left_ne_zero (mt isDue_iff.mpr hdue), toDivider_of_not_isDue hdue]

theorem stepBack_ne (step : Fin 8) : stepBack step ≠ step := by
  intro h
  have hval : (step.val + 7) % 8 = step.val := congrArg Fin.val h
  omega

theorem iterate_stepBack (step : Fin 8) (count : Nat) :
    ((stepBack^[count] step).val : Int) = ((step.val : Int) - count) % 8 := by
  induction count with
  | zero =>
    change (step.val : Int) = ((step.val : Int) - 0) % 8
    omega
  | succ count ih =>
    rw [Function.iterate_succ_apply', stepBack, val_low3]
    omega

/-- The waveform from a load on. -/
theorem clockTimer_advances (h : p.IsDue) (n : Nat) :
    changes clockTimer step n p.clockTimer = n / (2 * (p.timerPeriod + 1)) ∧
      ((clockTimer^[n] p.clockTimer).step.val : Int) =
        ((p.clockTimer.step.val : Int) - (n / (2 * (p.timerPeriod + 1)) : Nat)) % 8 := by
  obtain ⟨hchanges, hplace⟩ := Divider.advances_of_semiconj semiconj_clockTimer
    (toDivider_of_isDue h) (fun _ ↦ stepBack_ne _) n
  refine ⟨hchanges, ?_⟩
  rw [← iterate_stepBack]
  exact congrArg (fun place : Fin 8 ↦ (place.val : Int)) hplace

theorem InRange.exists_isDue (h : p.InRange) :
    ∃ k < 2 * 0x800, (clockTimer^[k] p).IsDue := by
  have hleft : p.toDivider.left < 2 * 0x800 := by
    have htimer := h.timer
    have hskipped := Bool.toNat_le (!p.skipped)
    change 2 * p.timer + (!p.skipped).toNat < 2 * 0x800
    rw [greatestPeriod] at htimer
    omega
  simp only [isDue_iff]
  exact Divider.exists_left_eq_zero_of_semiconj semiconj_clockTimer hleft

end Pulse

/-! ## The triangle -/

namespace Triangle

/-- The next clock loads the timer. -/
def IsDue (t : Triangle) : Prop := t.timer = 0

/-- A step through the waveform. -/
def stepOn (step : Fin 32) : Fin 32 := low5 (step.val + 1)

/-- The timer as a divider. What it drives stands still while a counter stops it. -/
def toDivider (t : Triangle) : Divider (Fin 32) :=
  ⟨t.timerPeriod, t.timer, if t.isRunning then stepOn else id, t.step⟩

variable {t : Triangle}

theorem clockTimer_of_isDue (h : t.IsDue) :
    t.clockTimer =
      { t with timer := t.timerPeriod, step := if t.isRunning then stepOn t.step else t.step } :=
  if_pos h

theorem clockTimer_of_not_isDue (h : ¬t.IsDue) : t.clockTimer = { t with timer := t.timer - 1 } :=
  if_neg h

/-- The divider right after a load. -/
theorem toDivider_of_isDue (h : t.IsDue) :
    t.clockTimer.toDivider =
      ⟨t.timerPeriod, t.timerPeriod, if t.isRunning then stepOn else id, t.clockTimer.step⟩ := by
  rw [clockTimer_of_isDue h]
  rfl

theorem semiconj_clockTimer : Function.Semiconj toDivider clockTimer Divider.clock := by
  intro t
  by_cases hdue : t.IsDue
  · rw [Divider.clock_of_left_eq_zero (d := t.toDivider) hdue, toDivider_of_isDue hdue,
      clockTimer_of_isDue hdue, toDivider]
    -- A triangle that is stopped is loaded all the same, and drives its step nowhere.
    cases t.isRunning <;> rfl
  · rw [Divider.clock_of_left_ne_zero (d := t.toDivider) hdue, clockTimer_of_not_isDue hdue]
    rfl

theorem stepOn_ne (step : Fin 32) : stepOn step ≠ step := by
  intro h
  have hval : (step.val + 1) % 32 = step.val := congrArg Fin.val h
  omega

theorem iterate_stepOn (step : Fin 32) (count : Nat) :
    (stepOn^[count] step).val = (step.val + count) % 32 := by
  induction count with
  | zero => exact (Nat.mod_eq_of_lt step.isLt).symm
  | succ count ih =>
    rw [Function.iterate_succ_apply', stepOn, val_low5, ih]
    omega

theorem isRunning_iff : t.isRunning = true ↔ 0 < t.linear ∧ t.length.isActive = true := by
  rw [isRunning, Bool.and_eq_true, decide_eq_true_iff]

/-- The waveform from a load on. -/
theorem clockTimer_advances (h : t.IsDue) (hrunning : t.isRunning = true) (n : Nat) :
    changes clockTimer step n t.clockTimer = n / (t.timerPeriod + 1) ∧
      (clockTimer^[n] t.clockTimer).step.val =
        (t.clockTimer.step.val + n / (t.timerPeriod + 1)) % 32 := by
  have hloaded := toDivider_of_isDue h
  rw [if_pos hrunning] at hloaded
  obtain ⟨hchanges, hplace⟩ :=
    Divider.advances_of_semiconj semiconj_clockTimer hloaded (fun _ ↦ stepOn_ne _) n
  exact ⟨hchanges, (congrArg Fin.val hplace).trans (iterate_stepOn _ _)⟩

/-- The waveform stands still while a counter is zero. -/
theorem clockTimer_stays (h : t.IsDue) (hstopped : ¬t.isRunning = true) (n : Nat) :
    changes clockTimer step n t.clockTimer = 0 ∧
      (clockTimer^[n] t.clockTimer).step = t.clockTimer.step := by
  have hloaded := toDivider_of_isDue h
  rw [if_neg hstopped] at hloaded
  exact Divider.stays_of_semiconj semiconj_clockTimer hloaded rfl n

theorem InRange.exists_isDue (h : t.InRange) : ∃ k < 0x800, (Triangle.clockTimer^[k] t).IsDue :=
  Divider.exists_left_eq_zero_of_semiconj semiconj_clockTimer (Nat.lt_succ_of_le h.timer)

end Triangle

/-! ## Noise -/

namespace Noise

/-- The next clock loads the timer. -/
def IsDue (n : Noise) : Prop := n.timer = 0

/-- The timer as a divider of the shifts of the register. -/
def toDivider (n : Noise) : Divider Nat :=
  ⟨n.timerPeriod - 1, n.timer, nextRegister n.short, n.register⟩

variable {n : Noise}

theorem clockTimer_of_isDue (h : n.IsDue) :
    n.clockTimer =
      { n with timer := n.timerPeriod - 1, register := nextRegister n.short n.register } :=
  if_pos h

/-- The divider right after a load. -/
theorem toDivider_of_isDue (h : n.IsDue) :
    n.clockTimer.toDivider =
      ⟨n.timerPeriod - 1, n.timerPeriod - 1, nextRegister n.short, n.clockTimer.register⟩ := by
  rw [clockTimer_of_isDue h]
  rfl

theorem clockTimer_of_not_isDue (h : ¬n.IsDue) : n.clockTimer = { n with timer := n.timer - 1 } :=
  if_neg h

theorem semiconj_clockTimer : Function.Semiconj toDivider clockTimer Divider.clock := by
  intro n
  by_cases hdue : n.IsDue
  · rw [Divider.clock_of_left_eq_zero (d := n.toDivider) hdue, clockTimer_of_isDue hdue]
    rfl
  · rw [Divider.clock_of_left_ne_zero (d := n.toDivider) hdue, clockTimer_of_not_isDue hdue]
    rfl

/-- A shift moves every register that is not empty: only a register of equal bits could stay, and a
full one takes in a zero. -/
theorem nextRegister_ne (short : Bool) {register : Nat} (hpos : 0 < register)
    (hlt : register < 0x8000) : nextRegister short register ≠ register := by
  intro hstill
  have hfull : register = 0x7fff := by
    have hfeedback := Bool.toNat_le (feedback short register)
    rw [nextRegister] at hstill
    omega
  subst hfull
  cases short with
  | false => exact absurd hstill (by decide)
  | true => exact absurd hstill (by decide)

theorem iterate_nextRegister_range (short : Bool) {register : Nat} (hpos : 0 < register)
    (hlt : register < 0x8000) (count : Nat) :
    0 < (nextRegister short)^[count] register ∧ (nextRegister short)^[count] register < 0x8000 := by
  induction count with
  | zero => exact ⟨hpos, hlt⟩
  | succ count ih =>
    rw [Function.iterate_succ_apply']
    exact nextRegister_range short ih.1 ih.2

/-- The register from a load on. -/
theorem InRange.clockTimer_advances (h : n.InRange) (hdue : n.IsDue) (clocks : Nat) :
    changes Noise.clockTimer register clocks n.clockTimer = clocks / n.timerPeriod ∧
      (Noise.clockTimer^[clocks] n.clockTimer).register =
        (nextRegister n.short)^[clocks / n.timerPeriod] n.clockTimer.register := by
  obtain ⟨-, hpos, hlt, -⟩ := h.clockTimer
  have hmoves (k : Nat) : nextRegister n.short ((nextRegister n.short)^[k] n.clockTimer.register) ≠
      (nextRegister n.short)^[k] n.clockTimer.register := by
    obtain ⟨hkpos, hklt⟩ := iterate_nextRegister_range n.short hpos hlt k
    exact nextRegister_ne n.short hkpos hklt
  have hadvances :=
    Divider.advances_of_semiconj semiconj_clockTimer (toDivider_of_isDue hdue) hmoves clocks
  rwa [Nat.sub_add_cancel n.timerPeriod_pos] at hadvances

theorem InRange.exists_isDue (h : n.InRange) : ∃ k < 4068, (Noise.clockTimer^[k] n).IsDue :=
  Divider.exists_left_eq_zero_of_semiconj semiconj_clockTimer h.timer

end Noise

/-! ## All timers -/

/-- From where its timer is loaded, and while its period is left alone, a channel moves on once in
exactly so many clocks: a pulse backwards through its waveform, the triangle forwards, or not at all
while one of its counters is zero, and noise by a shift of its register. Whatever has happened to a
channel before, its timer is loaded within the time of its longest period. -/
theorem timers_keep_frequency :
    (∀ p : Pulse, p.IsDue → ∀ clocks : Nat,
      let loaded := p.clockTimer
      let count := clocks / (2 * (p.timerPeriod + 1))
      changes Pulse.clockTimer Pulse.step clocks loaded = count ∧
        ((Pulse.clockTimer^[clocks] loaded).step.val : Int) =
          ((loaded.step.val : Int) - count) % 8) ∧
    (∀ t : Triangle, t.IsDue → ∀ clocks : Nat,
      let loaded := t.clockTimer
      let count :=
        if 0 < t.linear ∧ t.length.isActive = true then clocks / (t.timerPeriod + 1) else 0
      changes Triangle.clockTimer Triangle.step clocks loaded = count ∧
        (Triangle.clockTimer^[clocks] loaded).step.val = (loaded.step.val + count) % 32) ∧
    ∀ events : List ChannelEvent,
      (∀ tv : Television,
        let noise := Noise.run { television := tv } events
        let loaded := noise.clockTimer
        noise.IsDue → ∀ clocks : Nat,
          let count := clocks / noise.timerPeriod
          changes Noise.clockTimer Noise.register clocks loaded = count ∧
            (Noise.clockTimer^[clocks] loaded).register =
              (Noise.nextRegister noise.short)^[count] loaded.register) ∧
      (∀ unit : PulseUnit,
        ∃ k < 2 * 0x800, (Pulse.clockTimer^[k] (Pulse.run { unit } events)).IsDue) ∧
      (∃ k < 0x800, (Triangle.clockTimer^[k] (Triangle.run {} events)).IsDue) ∧
      ∀ tv : Television,
        ∃ k < 4068, (Noise.clockTimer^[k] (Noise.run { television := tv } events)).IsDue := by
  refine ⟨fun p hdue ↦ Pulse.clockTimer_advances hdue, fun t hdue clocks ↦ ?triangle,
    fun events ↦ ⟨fun tv hdue ↦ ?noise, fun unit ↦ ?pulseDue, ?triangleDue, fun tv ↦ ?noiseDue⟩⟩
  case triangle =>
    intro loaded count
    by_cases hrunning : 0 < t.linear ∧ t.length.isActive = true
    · have hcount : count = clocks / (t.timerPeriod + 1) := if_pos hrunning
      rw [hcount]
      exact Triangle.clockTimer_advances hdue (Triangle.isRunning_iff.mpr hrunning) clocks
    · have hcount : count = 0 := if_neg hrunning
      obtain ⟨hchanges, hstep⟩ :=
        Triangle.clockTimer_stays hdue (mt Triangle.isRunning_iff.mp hrunning) clocks
      rw [hcount, hstep]
      exact ⟨hchanges, (Nat.mod_eq_of_lt (Fin.isLt _)).symm⟩
  -- The law of the other two holds of any state; a register must come from a run not to be empty.
  case noise => exact ((Noise.InRange.fresh tv).run events).clockTimer_advances hdue
  case pulseDue => exact ((Pulse.InRange.fresh unit).run events).exists_isDue
  case triangleDue =>
    have hfresh : Triangle.InRange {} := ⟨Nat.zero_le _, Nat.zero_le _⟩
    exact (hfresh.run events).exists_isDue
  case noiseDue => exact ((Noise.InRange.fresh tv).run events).exists_isDue

/-- A pulse with a period of `$1ab` steps back three times in 2568 clocks, a triangle that sounds
with a period of zero goes once round in 32, and noise with the longest period shifts twice in
8136. -/
theorem timers_keep_frequency_loaded :
    let p : Pulse := { unit := .one, timerPeriod := 0x1ab, skipped := true }
    let t := Triangle.run {} [.enable true, .write 0 0x81, .write 3 0, .envelope]
    let n := Noise.run { television := .ntsc } [.write 2 0x8f]
    (p.IsDue ∧ changes Pulse.clockTimer Pulse.step 2568 p.clockTimer = 3 ∧
      ((Pulse.clockTimer^[2568] p.clockTimer).step.val : Int) = 4) ∧
    (t.IsDue ∧ changes Triangle.clockTimer Triangle.step 32 t.clockTimer = 32 ∧
      (Triangle.clockTimer^[32] t.clockTimer).step.val = 1) ∧
    n.IsDue ∧ changes Noise.clockTimer Noise.register 8136 n.clockTimer = 2 ∧
      (Noise.clockTimer^[8136] n.clockTimer).register = 0x1000 := by
  intro p t n
  have hp : p.IsDue := ⟨rfl, rfl⟩
  have ht : t.IsDue := rfl
  have hn : n.IsDue := rfl
  obtain ⟨hpulse, htriangle, hruns⟩ := timers_keep_frequency
  obtain ⟨hpulseCount, hpulseStep⟩ := hpulse p hp 2568
  obtain ⟨htriangleCount, htriangleStep⟩ := htriangle t ht 32
  obtain ⟨hnoiseCount, hnoiseRegister⟩ := (hruns [.write 2 0x8f]).1 .ntsc hn 8136
  exact ⟨⟨hp, hpulseCount.trans (by decide), hpulseStep.trans (by decide)⟩,
    ⟨ht, htriangleCount.trans (by decide), htriangleStep.trans (by decide)⟩,
    hn, hnoiseCount.trans (by decide), hnoiseRegister.trans (by decide)⟩

end Famicom
