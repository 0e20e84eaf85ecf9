import Famicom.Proofs.Safety.Sound

/-!
# The sequencer misses no step

The sequencer compares its count with the next step by equality, so a count beyond that step would
silence it for good. Here its schedule is followed through every history of cycles, writes,
acknowledgements and resets. In between two restarts the count is the number of cycles modulo the
period,

```text
cycle  =  clocks % period,      previous  ≤  cycle  <  threshold,
```

and a cycle asks for what belongs to the step it lands on (`Sequencer.Elapsed.keeps_schedule`).
Switching the mode is no danger, since a write starts the count again.

## One step at a time

The steps of a sequence are strictly increasing, so between the step that was reached last and the
next one no other lies. A count within these bounds can therefore land on the next step alone
(`Sequencer.IsOnTime.lands_iff`), and what the cycle asks for and whether it raises the interrupt
are read off the step.
-/

namespace Famicom

namespace Sequencer

/-! ## The schedule -/

/-- The cycle counts of the six steps, in the mode that is set. -/
def steps (s : Sequencer) : Vector Nat 6 := s.television.sequencerSteps s.mode

/-- The cycles of a whole sequence, which ends with its last step. -/
def period (s : Sequencer) : Nat := s.steps[5]

/-- The count from which the sequencer waits for a step: that of the step before, and zero for the
first. -/
def startOf (s : Sequencer) (step : Fin 6) : Nat :=
  if step.val = 0 then 0 else s.steps[step.val - 1]

/-- The count of the step that was reached last, zero at the start of a sequence. -/
def previous (s : Sequencer) : Nat := s.startOf s.next

/-- The next cycle lands on this step. -/
def LandsOn (s : Sequencer) (step : Fin 6) : Prop := s.cycle + 1 = s.steps.get step

theorem steps_strictMono (tv : Television) (mode : SequencerMode) :
    ∀ step later : Fin 6, step < later →
      (tv.sequencerSteps mode).get step < (tv.sequencerSteps mode).get later := by
  cases tv <;> cases mode <;> decide

variable {s : Sequencer}

theorem steps_le {step later : Fin 6} (h : step ≤ later) : s.steps.get step ≤ s.steps.get later := by
  rcases Nat.lt_or_eq_of_le h with hlt | heq
  · exact Nat.le_of_lt (steps_strictMono s.television s.mode step later hlt)
  · obtain rfl := Fin.ext heq
    exact Nat.le_refl _

theorem startOf_stepAfter (s : Sequencer) (step : Fin 6) :
    s.startOf (stepAfter step) = if step.val = 5 then 0 else s.steps.get step := by
  match step with
  | 0 | 1 | 2 | 3 | 4 | 5 => rfl

/-! ## What happens to the sequencer -/

/-- What can happen to the sequencer. -/
inductive Action where
  | clock
  | write (value : UInt8)
  | clearIrq
  | reset

/-- The sequencer after an action. -/
def act (s : Sequencer) : Action → Sequencer
  | .clock => s.clock.2
  | .write value => (s.write value).2
  | .clearIrq => s.clearIrq
  | .reset => s.reset

/-- The sequencer has come from switching it on by some actions, and has been clocked so many times
since then, since the last write or since the last reset, whichever is the latest. -/
inductive Elapsed : (clocks : Nat) → Sequencer → Prop where
  | powerOn (tv : Television) : Elapsed 0 { television := tv }
  | clock {clocks : Nat} {s : Sequencer} (h : Elapsed clocks s) :
    Elapsed (clocks + 1) (s.act .clock)
  | clearIrq {clocks : Nat} {s : Sequencer} (h : Elapsed clocks s) :
    Elapsed clocks (s.act .clearIrq)
  | write {clocks : Nat} {s : Sequencer} (h : Elapsed clocks s) (value : UInt8) :
    Elapsed 0 (s.act (.write value))
  | reset {clocks : Nat} {s : Sequencer} (h : Elapsed clocks s) : Elapsed 0 (s.act .reset)

/-- A cycle that does not land on the next step only counts. One that does goes on to the step after
it, and may raise the interrupt flag. -/
theorem clock_cases (s : Sequencer) :
    (s.cycle + 1 ≠ s.threshold ∧ s.clock = (.none, { s with cycle := s.cycle + 1 })) ∨
      (s.cycle + 1 = s.threshold ∧
        s.clock =
          (.ofStep s.next,
            { s with
              irqFlag := s.irqFlag || s.raisesIrq
              cycle := if s.next.val = 5 then 0 else s.cycle + 1
              next := stepAfter s.next })) := by
  rw [clock]
  by_cases hlands : s.cycle + 1 = s.threshold
  · exact Or.inr ⟨hlands, if_neg (not_not_intro hlands)⟩
  · exact Or.inl ⟨hlands, if_pos hlands⟩

/-! ## The invariant -/

/-- The count is that of the cycles since the last restart, between two steps of the schedule, and
an interrupt that is inhibited is not flagged. -/
structure IsOnTime (clocks : Nat) (s : Sequencer) : Prop where
  previous_le : s.previous ≤ s.cycle
  cycle_lt : s.cycle < s.threshold
  cycle_eq : s.cycle = clocks % s.period
  quiet : s.irqInhibited = true → s.irqFlag = false

namespace IsOnTime

variable {clocks : Nat}

/-- At the start of a sequence no step has been reached. -/
theorem start (hcycle : s.cycle = 0) (hnext : s.next = firstStep)
    (hquiet : s.irqInhibited = true → s.irqFlag = false) : s.IsOnTime 0 where
  previous_le := by
    rw [previous, hnext]
    exact Nat.zero_le _
  cycle_lt := by
    have hfirst : s.threshold = s.steps.get firstStep := congrArg s.steps.get hnext
    rw [hcycle, hfirst]
    exact (steps_lt s.television s.mode).1
  cycle_eq := by rw [hcycle, Nat.zero_mod]
  quiet := hquiet

/-- Within its bounds the count can land on the next step alone. -/
theorem lands_iff (h : s.IsOnTime clocks) (step : Fin 6) :
    s.LandsOn step ↔ step = s.next ∧ s.cycle + 1 = s.threshold := by
  have hprevious := h.previous_le
  have hbelow := h.cycle_lt
  constructor
  · intro hlands
    rw [LandsOn] at hlands
    rcases Nat.lt_trichotomy step.val s.next.val with hbefore | hnow | hafter
    · -- a step that comes before the next one has been passed
      have hlast : s.steps.get step ≤ s.previous := by
        rw [previous, startOf, if_neg (by omega)]
        have hle : step ≤ (⟨s.next.val - 1, by omega⟩ : Fin 6) := Nat.le_sub_one_of_lt hbefore
        exact steps_le hle
      omega
    · obtain rfl := Fin.ext hnow
      exact ⟨rfl, hlands⟩
    · have hlater : s.threshold < s.steps.get step :=
        steps_strictMono s.television s.mode s.next step hafter
      omega
  · rintro ⟨rfl, hlands⟩
    exact hlands

theorem landsOn_iff_place (h : s.IsOnTime clocks) (step : Fin 6) :
    s.LandsOn step ↔ clocks % s.period + 1 = s.steps.get step := by rw [LandsOn, h.cycle_eq]

/-- A cycle keeps to the schedule. The count that lands on the last step starts again. -/
theorem clock (h : s.IsOnTime clocks) : (s.act .clock).IsOnTime (clocks + 1) := by
  have hsound : (s.act .clock).IsSound := IsSound.clock h.cycle_lt
  have hcount : (clocks + 1) % s.period = (s.cycle + 1) % s.period := by
    rw [h.cycle_eq, Nat.mod_add_mod]
  rcases s.clock_cases with ⟨hpasses, hclock⟩ | ⟨hlands, hclock⟩
  · have hnext : s.act .clock = { s with cycle := s.cycle + 1 } := congrArg Prod.snd hclock
    rw [hnext] at hsound ⊢
    refine ⟨Nat.le_succ_of_le h.previous_le, hsound, ?_, h.quiet⟩
    change s.cycle + 1 = (clocks + 1) % s.period
    have hfifth : s.next ≤ (5 : Fin 6) := Nat.le_of_lt_succ s.next.isLt
    have hlast : s.threshold ≤ s.period := steps_le hfifth
    have hbelow := h.cycle_lt
    rw [hcount, Nat.mod_eq_of_lt (by omega)]
  · have hnext := congrArg Prod.snd hclock
    change s.act .clock = _ at hnext
    rw [hnext] at hsound ⊢
    refine ⟨?_, hsound, ?_, ?_⟩
    · change s.startOf (stepAfter s.next) ≤ if s.next.val = 5 then 0 else s.cycle + 1
      rw [startOf_stepAfter, hlands]
      exact Nat.le_refl _
    · change (if s.next.val = 5 then 0 else s.cycle + 1) = (clocks + 1) % s.period
      rw [hcount]
      split
      · next hlast =>
        have hwhole : s.threshold = s.period := congrArg s.steps.get (Fin.ext hlast : s.next = 5)
        rw [hlands, hwhole, Nat.mod_self]
      · next hearlier =>
        have hinside : s.threshold < s.period :=
          steps_strictMono s.television s.mode s.next 5 (by omega)
        rw [hlands, Nat.mod_eq_of_lt hinside]
    · intro hinhibited
      change s.irqInhibited = true at hinhibited
      change (s.irqFlag || s.raisesIrq) = false
      rw [h.quiet hinhibited, raisesIrq, hinhibited]
      simp

/-- The interrupt flag rises on the last three of four steps, where nothing inhibits it. -/
theorem irqFlag_clock_iff (h : s.IsOnTime clocks) :
    (s.act .clock).irqFlag = true ↔
      s.irqFlag = true ∨
        s.mode = .fourStep ∧ s.irqInhibited = false ∧
          ∃ step : Fin 6, 3 ≤ step.val ∧ s.LandsOn step := by
  have hraises : s.raisesIrq = true ↔
      (s.mode = .fourStep ∧ 3 ≤ s.next.val) ∧ s.irqInhibited = false := by
    simp only [raisesIrq, Bool.and_eq_true, beq_iff_eq, decide_eq_true_eq, Bool.not_eq_true']
  rw [act]
  rcases s.clock_cases with ⟨hpasses, hclock⟩ | ⟨hlands, hclock⟩ <;> rw [hclock]
  · refine ⟨Or.inl, fun hflag ↦ hflag.resolve_right ?_⟩
    rintro ⟨-, -, step, -, hstep⟩
    exact hpasses ((h.lands_iff step).mp hstep).2
  · change (s.irqFlag || s.raisesIrq) = true ↔ _
    rw [Bool.or_eq_true, hraises]
    refine or_congr_right ⟨?_, ?_⟩
    · rintro ⟨⟨hmode, hlate⟩, hallowed⟩
      exact ⟨hmode, hallowed, s.next, hlate, hlands⟩
    · rintro ⟨hmode, hallowed, step, hlate, hstep⟩
      obtain ⟨rfl, -⟩ := (h.lands_iff step).mp hstep
      exact ⟨⟨hmode, hlate⟩, hallowed⟩

end IsOnTime

/-! ## Every history -/

theorem Elapsed.isOnTime {clocks : Nat} (h : Elapsed clocks s) : s.IsOnTime clocks := by
  induction h with
  | powerOn tv => exact .start rfl rfl fun _ ↦ rfl
  | clock _ ih => exact ih.clock
  | clearIrq _ ih => exact ⟨ih.previous_le, ih.cycle_lt, ih.cycle_eq, fun _ ↦ rfl⟩
  | @write _ s _ value _ =>
    refine .start rfl rfl fun hinhibited ↦ ?_
    change bit value 6 = true at hinhibited
    change (s.irqFlag && !bit value 6) = false
    rw [hinhibited, Bool.not_true, Bool.and_false]
  | reset _ _ => exact .start rfl rfl fun _ ↦ rfl

end Sequencer

end Famicom
