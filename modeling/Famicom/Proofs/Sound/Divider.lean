import Mathlib.Data.Nat.Count
import Mathlib.Logic.Function.Iterate

/-!
# Dividers

A divider slows a clock down. It counts down to zero, and there it is loaded with its period again
and drives something one step on. So it takes `period + 1` clocks for a step, and `n` clocks after it
was loaded

```text
place  =  drive^[n / (period + 1)] start,      left  =  period - n % (period + 1).
```

Four parts of the sound chip are dividers with something to drive: the timers of the pulse, triangle
and noise channels, which drive a waveform or a shift register, and the divider of an envelope,
which drives the level. Each is told by its view as a `Divider`, and what is said here of a run of
clocks goes over to it, because clocking and viewing commute (`Function.Semiconj`).

A divider need not have been loaded with the period of now. It reaches zero all the same, after as
many clocks as it has left (`Divider.iterate_clock_of_le`).
-/

namespace Famicom

/-- How many of the first `n` calls of `clock` change what is seen of a state. -/
def changes {σ α : Type} [DecidableEq α] (clock : σ → σ) (seen : σ → α) (n : Nat) (s : σ) : Nat :=
  Nat.count (fun i ↦ seen (clock^[i + 1] s) ≠ seen (clock^[i] s)) n

/-- A divider, and the place of what it drives. -/
structure Divider (α : Type) where
  period : Nat
  /-- Clocks left before the next step. -/
  left : Nat
  drive : α → α
  place : α

namespace Divider

variable {α : Type} {d : Divider α}

/-- A clock. -/
def clock (d : Divider α) : Divider α :=
  if d.left = 0 then { d with left := d.period, place := d.drive d.place }
  else { d with left := d.left - 1 }

theorem clock_of_left_eq_zero (h : d.left = 0) :
    d.clock = { d with left := d.period, place := d.drive d.place } := if_pos h

theorem clock_of_left_ne_zero (h : d.left ≠ 0) : d.clock = { d with left := d.left - 1 } := if_neg h

/-- The step from one quotient and remainder to the next. -/
theorem div_mod_succ (n period : Nat) :
    n % (period + 1) = period ∧
        (n + 1) / (period + 1) = n / (period + 1) + 1 ∧ (n + 1) % (period + 1) = 0 ∨
      n % (period + 1) < period ∧
        (n + 1) / (period + 1) = n / (period + 1) ∧
          (n + 1) % (period + 1) = n % (period + 1) + 1 := by
  have hpos : 0 < period + 1 := Nat.succ_pos period
  have hparts := Nat.div_add_mod n (period + 1)
  have hlt := Nat.mod_lt n hpos
  by_cases hlast : n % (period + 1) = period
  · refine Or.inl ⟨hlast, (Nat.div_mod_unique hpos).mpr ⟨?_, hpos⟩⟩
    rw [Nat.mul_succ]
    omega
  · exact Or.inr ⟨by omega, (Nat.div_mod_unique hpos).mpr ⟨by omega, by omega⟩⟩

/-- Down to zero nothing is driven. -/
theorem iterate_clock_of_le {n : Nat} (h : n ≤ d.left) :
    clock^[n] d = { d with left := d.left - n } := by
  induction n with
  | zero => rfl
  | succ n ih =>
    rw [Function.iterate_succ_apply', ih (Nat.le_of_succ_le h),
      clock_of_left_ne_zero (Nat.sub_ne_zero_of_lt h), Nat.sub_sub]

/-- So many clocks after it was loaded, a divider has driven once for every whole period. -/
theorem iterate_clock (h : d.left = d.period) (n : Nat) :
    clock^[n] d =
      { d with
        left := d.period - n % (d.period + 1)
        place := d.drive^[n / (d.period + 1)] d.place } := by
  induction n with
  | zero =>
    rw [Nat.zero_mod, Nat.zero_div, Nat.sub_zero]
    exact congrArg (Divider.mk d.period · d.drive d.place) h
  | succ n ih =>
    rw [Function.iterate_succ_apply', ih]
    -- The clock that ends a period is the one that finds the divider at zero.
    rcases div_mod_succ n d.period with ⟨hlast, hdiv, hmod⟩ | ⟨hbelow, hdiv, hmod⟩
    · rw [clock_of_left_eq_zero (by rw [hlast, Nat.sub_self]), hdiv, hmod,
        Function.iterate_succ_apply', Nat.sub_zero]
    · rw [clock_of_left_ne_zero (Nat.sub_ne_zero_of_lt hbelow), hdiv, hmod, Nat.sub_sub]

section Changes

variable [DecidableEq α]

/-- What never stands still is moved once in every period. -/
theorem changes_place (h : d.left = d.period)
    (hdrive : ∀ k, d.drive (d.drive^[k] d.place) ≠ d.drive^[k] d.place) (n : Nat) :
    changes clock place n d = n / (d.period + 1) := by
  induction n with
  | zero => rw [changes, Nat.count_zero, Nat.zero_div]
  | succ n ih =>
    rw [changes] at ih ⊢
    rw [Nat.count_succ, ih, iterate_clock h, iterate_clock h]
    rcases div_mod_succ n d.period with ⟨-, hdiv, -⟩ | ⟨-, hdiv, -⟩
    · rw [hdiv, Function.iterate_succ_apply', if_pos (hdrive _)]
    · rw [hdiv, if_neg (not_not_intro rfl), Nat.add_zero]

/-- What stands still is not moved. -/
theorem changes_place_of_fixed (h : d.left = d.period) (hdrive : d.drive d.place = d.place)
    (n : Nat) : changes clock place n d = 0 := by
  have hstill (i : Nat) : (clock^[i] d).place = d.place := by
    rw [iterate_clock h]
    exact Function.iterate_fixed hdrive _
  rw [changes, Nat.count_iff_forall_not]
  intro i _ hmoves
  exact hmoves ((hstill _).trans (hstill i).symm)

end Changes

/-! ## Seen from a part

What is said of a divider goes over to a part of the chip that is told by a view of it. -/

section View

variable {σ : Type} {step : σ → σ} {view : σ → Divider α} {s : σ} {period : Nat} {drive : α → α}
  {place : α}

/-- Changes are the same seen through a view. -/
theorem changes_of_semiconj [DecidableEq α] (h : Function.Semiconj view step clock) (n : Nat)
    (s : σ) :
    changes step (fun s ↦ (view s).place) n s = changes clock Divider.place n (view s) := by
  have hview (i : Nat) : view (step^[i] s) = clock^[i] (view s) := h.iterate_right i s
  simp only [changes, hview]

/-- A part that has just been loaded moves on once in every period. -/
theorem advances_of_semiconj [DecidableEq α] (h : Function.Semiconj view step clock)
    (hloaded : view s = ⟨period, period, drive, place⟩)
    (hdrive : ∀ k, drive (drive^[k] place) ≠ drive^[k] place) (n : Nat) :
    changes step (fun s ↦ (view s).place) n s = n / (period + 1) ∧
      (view (step^[n] s)).place = drive^[n / (period + 1)] place := by
  rw [changes_of_semiconj h, h.iterate_right n s, hloaded, iterate_clock rfl]
  exact ⟨changes_place rfl hdrive n, rfl⟩

/-- A part that drives nothing on stays where it is. -/
theorem stays_of_semiconj [DecidableEq α] (h : Function.Semiconj view step clock)
    (hloaded : view s = ⟨period, period, drive, place⟩) (hdrive : drive place = place) (n : Nat) :
    changes step (fun s ↦ (view s).place) n s = 0 ∧ (view (step^[n] s)).place = place := by
  rw [changes_of_semiconj h, h.iterate_right n s, hloaded, iterate_clock rfl]
  exact ⟨changes_place_of_fixed rfl hdrive n, Function.iterate_fixed hdrive _⟩

/-- A part comes to its next load, whatever it was loaded with before. -/
theorem exists_left_eq_zero_of_semiconj (h : Function.Semiconj view step clock) {bound : Nat}
    (hlt : (view s).left < bound) : ∃ k < bound, (view (step^[k] s)).left = 0 := by
  refine ⟨(view s).left, hlt, ?_⟩
  rw [h.iterate_right, iterate_clock_of_le (Nat.le_refl _)]
  exact Nat.sub_self _

end View

end Divider

end Famicom
