import Famicom.Timing.RatioClock

/-!
# Slow ticks for fast ones

A clock pays whole slow ticks and keeps the rest. What it finds in its accumulator, what `n` fast
ticks bring, what it pays for them and what it leaves are one balance,

```text
accumulator + n · numerator = denominator · total + accumulator',
```

whatever the ratio is (`RatioClock.balance`). Less than a slow tick is ever left, so the total is a
quotient: from an empty accumulator that of the fast ticks alone, rounded down, and from any other
at most one more, which is then the same quotient rounded up.

The sum that a tick makes in the accumulator is at most `numerator + denominator - 1`. A ratio for
which that fits into 32 bits never sets the fault latch.
-/

namespace Famicom

namespace RatioClock

/-- What can happen to a clock. -/
inductive Event where
  | tick
  | reset

/-- The clock after an event. -/
def after (c : RatioClock) : Event → RatioClock
  | .tick => c.tick.2
  | .reset => c.reset

/-- The clock after some events. -/
def run (c : RatioClock) (events : List Event) : RatioClock := events.foldl after c

variable {c : RatioClock} {r : Ratio}

/-! ## The balance -/

theorem totalFrom_eq (given n : Nat) (c : RatioClock) :
    totalFrom given n c = (given + (c.total n).1, (c.total n).2) := by
  unfold total
  induction n generalizing given c with
  | zero => rfl
  | succ n ih =>
    simp only [totalFrom]
    rw [ih, ih (0 + _), Nat.zero_add, Nat.add_assoc]

theorem total_succ (n : Nat) (c : RatioClock) :
    c.total (n + 1) = (c.tick.1 + (c.tick.2.total n).1, (c.tick.2.total n).2) := by
  change totalFrom (0 + c.tick.1) n c.tick.2 = _
  rw [totalFrom_eq, Nat.zero_add]

/-- A tick pays whole slow ticks and keeps the rest. -/
theorem tick_balance (c : RatioClock) :
    c.accumulator + c.ratio.numerator = c.ratio.denominator * c.tick.1 + c.tick.2.accumulator :=
  (Nat.div_add_mod (c.accumulator + c.ratio.numerator) c.ratio.denominator).symm

/-- What is paid for some ticks and what is left make up for them and for what was there. -/
theorem balance (c : RatioClock) (n : Nat) :
    c.accumulator + n * c.ratio.numerator =
      c.ratio.denominator * (c.total n).1 + (c.total n).2.accumulator := by
  induction n generalizing c with
  | zero =>
    change c.accumulator + 0 * c.ratio.numerator = c.ratio.denominator * 0 + c.accumulator
    omega
  | succ n ih =>
    have htick := c.tick_balance
    have hrest : c.tick.2.accumulator + n * c.ratio.numerator =
        c.ratio.denominator * (c.tick.2.total n).1 + (c.tick.2.total n).2.accumulator := ih c.tick.2
    rw [total_succ, Nat.mul_add, Nat.succ_mul]
    dsimp only
    omega

/-! ## What is kept -/

/-- A clock of this ratio holds less than a slow tick, and none of its ticks has gone wrong. -/
structure IsExact (r : Ratio) (c : RatioClock) : Prop where
  ratio : c.ratio = r
  accumulator_lt : c.accumulator < r.denominator
  fault : c.fault = false

namespace IsExact

/-- The largest sum that a tick can make is one less than numerator and denominator together. -/
theorem sum_lt (h : IsExact r c) (hfits : r.numerator + r.denominator - 1 ≤ 0xffffffff) :
    c.accumulator + r.numerator < accumulatorLimit := by
  have hlt := h.accumulator_lt
  rw [accumulatorLimit]
  omega

theorem tick (h : IsExact r c) (hfits : r.numerator + r.denominator - 1 ≤ 0xffffffff) :
    IsExact r c.tick.2 := by
  have hpos : 0 < r.denominator := Nat.zero_lt_of_lt h.accumulator_lt
  have hsum := h.sum_lt hfits
  obtain ⟨rfl, -, hfault⟩ := h
  refine ⟨rfl, Nat.mod_lt _ hpos, ?_⟩
  change (c.fault || c.ratio.denominator == 0 ||
    decide (accumulatorLimit ≤ c.accumulator + c.ratio.numerator)) = false
  rw [hfault, beq_false_of_ne (Nat.ne_of_gt hpos), decide_eq_false (Nat.not_le.mpr hsum)]
  rfl

theorem reset (h : IsExact r c) : IsExact r c.reset :=
  ⟨h.ratio, Nat.zero_lt_of_lt h.accumulator_lt, h.fault⟩

theorem run (h : IsExact r c) (hfits : r.numerator + r.denominator - 1 ≤ 0xffffffff)
    (events : List Event) : IsExact r (c.run events) := by
  induction events generalizing c with
  | nil => exact h
  | cons event rest ih =>
    cases event with
    | tick => exact ih (h.tick hfits)
    | reset => exact ih h.reset

theorem total (h : IsExact r c) (hfits : r.numerator + r.denominator - 1 ≤ 0xffffffff) (n : Nat) :
    IsExact r (c.total n).2 := by
  induction n generalizing c with
  | zero => exact h
  | succ n ih =>
    rw [total_succ]
    exact ih (h.tick hfits)

/-! ## The total -/

/-- The total is a quotient, and the rest is its remainder. -/
theorem total_eq (h : IsExact r c) (hfits : r.numerator + r.denominator - 1 ≤ 0xffffffff)
    (n : Nat) :
    (c.total n).1 = (c.accumulator + n * r.numerator) / r.denominator ∧
      (c.total n).2.accumulator = (c.accumulator + n * r.numerator) % r.denominator := by
  have hrest := (h.total hfits n).accumulator_lt
  have hbalance := c.balance n
  rw [h.ratio] at hbalance
  obtain ⟨hdiv, hmod⟩ := (Nat.div_mod_unique (Nat.zero_lt_of_lt hrest)).mpr
    ⟨(Nat.add_comm _ _).trans hbalance.symm, hrest⟩
  exact ⟨hdiv.symm, hmod.symm⟩

/-- What is in the accumulator at the start decides which way the quotient is rounded. -/
theorem total_rounds (h : IsExact r c) (hfits : r.numerator + r.denominator - 1 ≤ 0xffffffff)
    (n : Nat) :
    (c.total n).1 = n * r.numerator / r.denominator ∨
      (c.total n).1 = (n * r.numerator + r.denominator - 1) / r.denominator := by
  have hlt := h.accumulator_lt
  have hpos : 0 < r.denominator := Nat.zero_lt_of_lt hlt
  have hdown : n * r.numerator / r.denominator ≤
      (c.accumulator + n * r.numerator) / r.denominator :=
    Nat.div_le_div_right (Nat.le_add_left _ _)
  have hup : (c.accumulator + n * r.numerator) / r.denominator ≤
      (n * r.numerator + r.denominator - 1) / r.denominator :=
    Nat.div_le_div_right (by omega)
  have hgap : (n * r.numerator + r.denominator - 1) / r.denominator ≤
      n * r.numerator / r.denominator + 1 := by
    rw [← Nat.add_div_right _ hpos]
    exact Nat.div_le_div_right (Nat.sub_le _ _)
  rw [(h.total_eq hfits n).1]
  omega

end IsExact

/-- A clock never drifts, whatever its ratio is. However it has been used, its accumulator holds
less than a slow tick and no sum has left it or is going to with the next tick. The first `n` ticks
of a clock that is new, or has been reset, give `n` times the ratio rounded down, and any `n` ticks
in a row give that or the same rounded up. -/
theorem never_drifts {r : Ratio} (hpos : 0 < r.denominator)
    (hfits : r.numerator + r.denominator - 1 ≤ 0xffffffff) (history : List Event) (n : Nat) :
    let new : RatioClock := { ratio := r }
    let used := new.run history
    (used.accumulator < r.denominator ∧ used.fault = false ∧
      used.accumulator + used.ratio.numerator < accumulatorLimit) ∧
    ((new.total n).1 = n * r.numerator / r.denominator ∧
      (used.reset.total n).1 = n * r.numerator / r.denominator) ∧
    ((used.total n).1 = n * r.numerator / r.denominator ∨
      (used.total n).1 = (n * r.numerator + r.denominator - 1) / r.denominator) := by
  intro new used
  have hnew : IsExact r new := ⟨rfl, hpos, rfl⟩
  have hused : IsExact r used := hnew.run hfits history
  have hstart {c : RatioClock} (h : IsExact r c) (hempty : c.accumulator = 0) :
      (c.total n).1 = n * r.numerator / r.denominator := by
    rw [(h.total_eq hfits n).1, hempty, Nat.zero_add]
  refine ⟨⟨hused.accumulator_lt, hused.fault, ?_⟩, ⟨hstart hnew rfl, hstart hused.reset rfl⟩,
    hused.total_rounds hfits n⟩
  rw [hused.ratio]
  exact hused.sum_lt hfits

/-- The largest numerator for its denominator, with a rest in the accumulator that rounds two ticks
up. -/
theorem never_drifts_roundedUp :
    0 < 26 ∧ 4294967270 + 26 - 1 ≤ 0xffffffff ∧
      ((run { ratio := ⟨4294967270, 26⟩ } [.tick, .reset, .tick]).reset.total 2).1 = 330382097 ∧
      ((run { ratio := ⟨4294967270, 26⟩ } [.tick, .reset, .tick]).total 2).1 = 330382098 := by
  obtain ⟨-, ⟨-, hreset⟩, hused⟩ :=
    never_drifts (r := ⟨4294967270, 26⟩) (by decide) (by decide) [.tick, .reset, .tick] 2
  exact ⟨by decide, by decide, hreset, hused.resolve_left (by decide)⟩

end RatioClock

end Famicom
