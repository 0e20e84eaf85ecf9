import Famicom.Sound.Envelope
import Famicom.Sound.LengthCounter

/-!
# Pulse channels

A pulse channel steps through one of four waveforms of eight levels, at a rate given by an 11-bit
period, and its sweep unit raises or lowers that period on half frames. The two channels differ in
how they subtract: the first takes one more away than the second.

A channel is silent while its period is below eight or the period its sweep aims at does not fit
into eleven bits, whether or not the sweep is enabled.
-/

namespace Famicom

/-- Which of the two pulse channels. -/
inductive PulseUnit where
  | one
  | two
  deriving DecidableEq, Repr

/-- The waveforms, each in the order of its steps. -/
def dutyWaves : Vector (Vector Nat 8) 4 := #v[
  #v[0, 0, 0, 0, 0, 0, 0, 1],
  #v[0, 0, 0, 0, 0, 0, 1, 1],
  #v[0, 0, 0, 0, 1, 1, 1, 1],
  #v[1, 1, 1, 1, 1, 1, 0, 0]]

/-- The sweep unit of a pulse channel. -/
structure Sweep where
  enabled : Bool := false
  period : Nat := 0
  negate : Bool := false
  shift : Nat := 0
  /-- The divider is to be reloaded at the next clock. -/
  reload : Bool := false
  divider : Nat := 0
  deriving DecidableEq, Repr

namespace Sweep

/-- Sets the sweep from a register byte. -/
def write (s : Sweep) (value : UInt8) : Sweep :=
  { s with
    enabled := bit value 7
    period := value.toNat / 16 % 8
    negate := bit value 3
    shift := value.toNat % 8
    reload := true }

/-- Moves the divider on by one half frame. -/
def clockDivider (s : Sweep) : Sweep :=
  if s.divider = 0 ∨ s.reload then { s with divider := s.period, reload := false }
  else { s with divider := s.divider - 1 }

/-- The sweep would change the period at the next half frame. -/
def isDue (s : Sweep) : Bool := s.divider == 0 && s.enabled && s.shift != 0

end Sweep

/-- A pulse channel. -/
structure Pulse where
  unit : PulseUnit
  timerPeriod : Nat := 0
  timer : Nat := 0
  /-- The timer has skipped its last clock, as it does every second time. -/
  skipped : Bool := false
  duty : Fin 4 := low2 0
  step : Fin 8 := low3 0
  envelope : Envelope := {}
  length : LengthCounter := {}
  sweep : Sweep := {}
  deriving DecidableEq, Repr

namespace Pulse

/-- The least period that can be heard. -/
def leastPeriod : Nat := 8

/-- The greatest period that fits into eleven bits. -/
def greatestPeriod : Nat := 0x7ff

/-- A write to one of the four registers. -/
def write (p : Pulse) (register : Fin 4) (value : UInt8) : Pulse :=
  match register with
  | 0 =>
    { p with
      duty := low2 (value.toNat / 64)
      envelope := p.envelope.write value
      length := p.length.setHalted (bit value 5) }
  | 1 => { p with sweep := p.sweep.write value }
  | 2 => { p with timerPeriod := p.timerPeriod / 0x100 * 0x100 + value.toNat }
  | 3 =>
    { p with
      timerPeriod := p.timerPeriod % 0x100 + value.toNat % 8 * 0x100
      length := p.length.load value
      envelope := p.envelope.restart
      step := low3 0 }

/-- Opens or closes the length counter's gate. -/
def setEnabled (p : Pulse) (enabled : Bool) : Pulse :=
  { p with length := p.length.setEnabled enabled }

/-- By how much the sweep moves the period. -/
def change (p : Pulse) : Nat := p.timerPeriod >>> p.sweep.shift

/-- The period the sweep aims at. -/
def targetPeriod (p : Pulse) : Nat :=
  if p.sweep.negate then
    match p.unit with
    | .one => p.timerPeriod - (p.change + 1)
    | .two => p.timerPeriod - p.change
  else p.timerPeriod + p.change

/-- The period, or the one the sweep aims at, is out of range. -/
def isMuted (p : Pulse) : Bool :=
  p.timerPeriod < leastPeriod || greatestPeriod < p.targetPeriod

/-- A half-frame clock of the sweep. -/
def clockSweep (p : Pulse) : Pulse :=
  { p with
    timerPeriod := if p.sweep.isDue && !p.isMuted then p.targetPeriod else p.timerPeriod
    sweep := p.sweep.clockDivider }

/-- The level now. -/
def output (p : Pulse) : Nat :=
  if p.length.isActive && !p.isMuted then dutyWaves[p.duty][p.step] * p.envelope.volume else 0

/-- A processor cycle. The timer moves every second time, and a timer that has run out steps the
waveform backwards. -/
def clockTimer (p : Pulse) : Pulse :=
  if !p.skipped then { p with skipped := true }
  else if p.timer = 0 then
    { p with skipped := false, timer := p.timerPeriod, step := low3 (p.step.val + 7) }
  else { p with skipped := false, timer := p.timer - 1 }

/-- A quarter-frame clock. -/
def clockEnvelope (p : Pulse) : Pulse := { p with envelope := p.envelope.clock }

/-- A half-frame clock of the length counter. -/
def clockLength (p : Pulse) : Pulse := { p with length := p.length.clock }

end Pulse

end Famicom
