import Famicom.Sound.LengthCounter

/-!
# The triangle channel

The triangle steps through 32 levels, down from 15 to 0 and up again, at the full processor rate
divided by its period. It has no volume: two counters stop it, the length counter and a linear
counter of finer grain, and while it is stopped it keeps its level.
-/

namespace Famicom

/-- The levels of the triangle, in order. -/
def triangleWave : Vector Nat 32 := #v[
  15, 14, 13, 12, 11, 10, 9, 8, 7, 6, 5, 4, 3, 2, 1, 0,
  0, 1, 2, 3, 4, 5, 6, 7, 8, 9, 10, 11, 12, 13, 14, 15]

/-- The triangle channel. -/
structure Triangle where
  timerPeriod : Nat := 0
  timer : Nat := 0
  step : Fin 32 := low5 0
  linear : Nat := 0
  /-- What the linear counter is reloaded with. -/
  linearStart : Nat := 0
  /-- The linear counter is reloaded instead of counting. -/
  linearReload : Bool := false
  /-- The linear counter goes on being reloaded, and the length counter stands still. -/
  control : Bool := false
  length : LengthCounter := {}
  deriving DecidableEq, Repr

namespace Triangle

/-- A write to one of the four registers, of which the second does not exist. -/
def write (t : Triangle) (register : Fin 4) (value : UInt8) : Triangle :=
  match register with
  | 0 =>
    { t with
      control := bit value 7
      linearStart := value.toNat % 128
      length := t.length.setHalted (bit value 7) }
  | 1 => t
  | 2 => { t with timerPeriod := t.timerPeriod / 0x100 * 0x100 + value.toNat }
  | 3 =>
    { t with
      timerPeriod := t.timerPeriod % 0x100 + value.toNat % 8 * 0x100
      length := t.length.load value
      linearReload := true }

/-- Opens or closes the length counter's gate. -/
def setEnabled (t : Triangle) (enabled : Bool) : Triangle :=
  { t with length := t.length.setEnabled enabled }

/-- The level now. -/
def output (t : Triangle) : Nat := triangleWave[t.step]

/-- Neither counter stops the channel. -/
def isRunning (t : Triangle) : Bool := 0 < t.linear && t.length.isActive

/-- A processor cycle. -/
def clockTimer (t : Triangle) : Triangle :=
  if t.timer = 0 then
    { t with timer := t.timerPeriod, step := if t.isRunning then low5 (t.step.val + 1) else t.step }
  else { t with timer := t.timer - 1 }

/-- A quarter-frame clock of the linear counter. -/
def clockLinear (t : Triangle) : Triangle :=
  { t with
    linear := if t.linearReload then t.linearStart else t.linear - 1
    linearReload := t.linearReload && t.control }

/-- A half-frame clock of the length counter. -/
def clockLength (t : Triangle) : Triangle := { t with length := t.length.clock }

end Triangle

end Famicom
