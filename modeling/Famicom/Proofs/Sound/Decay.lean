import Famicom.Proofs.Safety.Sound
import Famicom.Proofs.Sound.Divider

/-!
# The decay of an envelope

An envelope that is restarted takes its level to the peak at the next clock. From then on it is a
divider that drives the level down a step in every `period + 1` clocks, so that after `n` clocks,
the one of the restart among them, the level has fallen by `k = (n - 1) / (period + 1)` steps. It goes
round at zero, or stays there:

```text
looping  15 - k % 16,      otherwise  15 - k  (not below zero).
```

Nothing of the state before is left in that. What is left of it in between, when the period is
written anew in the middle of a decay, stays within the four bits of the counters
(`Envelope.IsBounded`).
-/

namespace Famicom.Envelope

open Check

/-! ## Steps of the level -/

/-- The level one step on. -/
def fall (looping : Bool) (level : Nat) : Nat :=
  if 0 < level then level - 1 else if looping then peak else 0

/-- The level so many steps from the peak. -/
def levelAfter (looping : Bool) (steps : Nat) : Nat :=
  if looping then 15 - steps % 16 else 15 - steps

theorem iterate_fall (looping : Bool) (steps : Nat) :
    (fall looping)^[steps] peak = levelAfter looping steps := by
  induction steps with
  | zero => cases looping <;> rfl
  | succ steps ih =>
    rw [Function.iterate_succ_apply', ih]
    cases looping with
    | false =>
      simp only [fall, levelAfter, Bool.false_eq_true, if_false]
      split <;> omega
    | true =>
      simp only [fall, levelAfter, peak, if_true]
      split <;> omega

/-! ## The divider of an envelope -/

/-- The divider and what it drives. -/
def toDivider (e : Envelope) : Divider Nat := ⟨e.period, e.divider, fall e.looping, e.decay⟩

variable {e : Envelope}

/-- An envelope that is not to be restarted goes on as a divider. -/
theorem clock_of_started (h : e.startPending = false) :
    e.clock.startPending = false ∧ e.clock.constant = e.constant ∧
      e.clock.toDivider = e.toDivider.clock := by
  by_cases hdue : e.divider = 0
  · rw [Divider.clock_of_left_eq_zero (d := e.toDivider) hdue, clock, if_neg (by simp [h]),
      if_pos hdue]
    exact ⟨h, rfl, rfl⟩
  · rw [Divider.clock_of_left_ne_zero (d := e.toDivider) hdue, clock, if_neg (by simp [h]),
      if_neg hdue]
    exact ⟨h, rfl, rfl⟩

theorem iterate_clock_of_started (h : e.startPending = false) (n : Nat) :
    (clock^[n] e).startPending = false ∧ (clock^[n] e).constant = e.constant ∧
      (clock^[n] e).toDivider = Divider.clock^[n] e.toDivider := by
  induction n with
  | zero => exact ⟨h, rfl, rfl⟩
  | succ n ih =>
    obtain ⟨hstarted, hconstant, hdivider⟩ := ih
    obtain ⟨hnext, hkept, hclock⟩ := clock_of_started hstarted
    rw [Function.iterate_succ_apply', Function.iterate_succ_apply', ← hdivider]
    exact ⟨hnext, hkept.trans hconstant, hclock⟩

/-- The clock after a restart loads the divider and takes the level to the peak. -/
theorem clock_restart (e : Envelope) :
    e.restart.clock =
      { e with startPending := false, decay := peak, divider := e.period } := rfl

theorem iterate_clock_restart (e : Envelope) (n : Nat) :
    (clock^[n + 1] e.restart).constant = e.constant ∧
      (clock^[n + 1] e.restart).period = e.period ∧
      (clock^[n + 1] e.restart).decay = levelAfter e.looping (n / (e.period + 1)) := by
  rw [Function.iterate_succ_apply, clock_restart]
  -- The first clock loads the divider, so the other `n` are those of a divider just loaded.
  generalize hloaded : ({ e with startPending := false, decay := peak, divider := e.period } :
    Envelope) = loaded
  obtain ⟨-, hconstant, hdivider⟩ :=
    iterate_clock_of_started (e := loaded) (by rw [← hloaded]) n
  rw [Divider.iterate_clock (by rw [← hloaded]; rfl)] at hdivider
  have hperiod := congrArg Divider.period hdivider
  have hplace := congrArg Divider.place hdivider
  subst hloaded
  exact ⟨hconstant, hperiod, hplace.trans (iterate_fall _ _)⟩

/-! ## Every run -/

/-- What can happen to an envelope. -/
inductive Event where
  | write (value : UInt8)
  | restart
  | clock

/-- The envelope after an event. -/
def act (e : Envelope) : Event → Envelope
  | .write value => e.write value
  | .restart => e.restart
  | .clock => e.clock

/-- The envelope after some events. -/
def run (e : Envelope) (events : List Event) : Envelope := events.foldl act e

/-- The counters have four bits. -/
structure IsBounded (e : Envelope) : Prop extends e.IsSound where
  divider : e.divider ≤ peak

namespace IsBounded

theorem act (h : e.IsBounded) (event : Event) : (e.act event).IsBounded := by
  cases event with
  | write value => exact ⟨h.toIsSound.write value, h.divider⟩
  | restart => exact ⟨h.toIsSound.restart, h.divider⟩
  | clock =>
    refine ⟨h.toIsSound.clock, ?_⟩
    have hperiod := h.period
    have hdivider := h.divider
    change e.clock.divider ≤ peak
    rw [clock]
    split
    · exact hperiod
    · split
      · exact hperiod
      · exact Nat.le_trans (Nat.sub_le _ _) hdivider

theorem run (h : e.IsBounded) (events : List Event) : (e.run events).IsBounded :=
  List.foldlRecOn events Envelope.act h fun _ h event _ ↦ h.act event

end IsBounded

/-- Whatever the state was before, after a register byte is written and the decay restarted the
level is that of the steps taken, one in every `period + 1` clocks after the first; the volume is the
level, or the period where the byte asks for a constant volume. In every run of a new envelope the
counters stay within four bits and nothing is taken from less than it. -/
theorem decays_in_steps :
    (∀ (e : Envelope) (value : UInt8) (n : Nat), 1 ≤ n →
      let period := value.toNat % 16
      let steps := (n - 1) / (period + 1)
      let level := if bit value 5 then 15 - steps % 16 else 15 - steps
      let after := clock^[n] (e.write value).restart
      after.decay = level ∧ after.volume = if bit value 4 then period else level) ∧
    ∀ events : List Event,
      (run {} events).decay ≤ 15 ∧ (run {} events).divider ≤ 15 ∧
        AllPass (run {} events).clockChecks := by
  refine ⟨?level, ?bounds⟩
  case level =>
    intro e value n hn period steps level after
    obtain ⟨m, rfl⟩ := Nat.exists_eq_add_of_le' hn
    obtain ⟨hconstant, hperiod, hdecay⟩ := iterate_clock_restart (e.write value) m
    refine ⟨hdecay, ?_⟩
    rw [volume, hconstant, hperiod, hdecay]
    rfl
  case bounds =>
    intro events
    have hfresh : IsBounded {} := ⟨⟨Nat.zero_le _, Nat.zero_le _⟩, Nat.zero_le _⟩
    have hrun := hfresh.run events
    exact ⟨hrun.decay, hrun.divider, allPass_clockChecks _⟩

/-- A level that loops, with three clocks for a step: down at zero with the forty-eighth clock, and
back at the peak with the next. -/
theorem decays_in_steps_looping :
    (clock^[48] (write {} 0x22).restart).volume = 0 ∧
      (clock^[49] (write {} 0x22).restart).volume = 15 :=
  ⟨(decays_in_steps.1 {} 0x22 48 (by decide)).2.trans (by decide),
    (decays_in_steps.1 {} 0x22 49 (by decide)).2.trans (by decide)⟩

end Famicom.Envelope
