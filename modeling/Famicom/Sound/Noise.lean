import Famicom.Sound.Envelope
import Famicom.Sound.LengthCounter
import Famicom.Television

/-!
# The noise channel

Noise is the lowest bit of a 15-bit shift register whose new bit is the exclusive or of two of the
others: of the lowest and the next, or, in the short mode, of the lowest and the seventh. Either
rule can be undone, so the register never reaches zero from the one it starts with.
-/

namespace Famicom

/-- Timer periods of the standard with the faster processor, in processor cycles. -/
def noisePeriodsNtsc : Vector Nat 16 := #v[
  4, 8, 16, 32, 64, 96, 128, 160, 202, 254, 380, 508, 762, 1016, 2034, 4068]

/-- Timer periods of the standard with the slower processor, in processor cycles. -/
def noisePeriodsPal : Vector Nat 16 := #v[
  4, 8, 14, 30, 60, 88, 118, 148, 188, 236, 354, 472, 708, 944, 1890, 3778]

/-- The timer periods of a standard. -/
def Television.noisePeriods : Television → Vector Nat 16
  | ntsc => noisePeriodsNtsc
  | pal => noisePeriodsPal

/-- The noise channel. -/
structure Noise where
  television : Television
  register : Nat := 1
  /-- The new bit is made with the seventh bit instead of the second. -/
  short : Bool := false
  /-- Which of the sixteen periods is in use. -/
  rate : Fin 16 := low4 0
  timer : Nat := 0
  envelope : Envelope := {}
  length : LengthCounter := {}
  deriving DecidableEq, Repr

namespace Noise

/-- The period of the timer, in processor cycles. -/
def timerPeriod (n : Noise) : Nat := n.television.noisePeriods[n.rate]

/-- A write to one of the four registers, of which the second does not exist. -/
def write (n : Noise) (register : Fin 4) (value : UInt8) : Noise :=
  match register with
  | 0 =>
    { n with
      envelope := n.envelope.write value
      length := n.length.setHalted (bit value 5) }
  | 1 => n
  | 2 => { n with short := bit value 7, rate := low4 value.toNat }
  | 3 => { n with length := n.length.load value, envelope := n.envelope.restart }

/-- Opens or closes the length counter's gate. -/
def setEnabled (n : Noise) (enabled : Bool) : Noise :=
  { n with length := n.length.setEnabled enabled }

/-- The bit that enters the register at its upper end. -/
def feedback (short : Bool) (register : Nat) : Bool :=
  xor (register.testBit 0) (register.testBit (if short then 6 else 1))

/-- The register one step on. -/
def nextRegister (short : Bool) (register : Nat) : Nat :=
  register / 2 + (feedback short register).toNat * 0x4000

/-- The level now. -/
def output (n : Noise) : Nat :=
  if n.length.isActive && !n.register.testBit 0 then n.envelope.volume else 0

/-- A processor cycle. -/
def clockTimer (n : Noise) : Noise :=
  if n.timer = 0 then
    { n with timer := n.timerPeriod - 1, register := nextRegister n.short n.register }
  else { n with timer := n.timer - 1 }

/-- A quarter-frame clock. -/
def clockEnvelope (n : Noise) : Noise := { n with envelope := n.envelope.clock }

/-- A half-frame clock of the length counter. -/
def clockLength (n : Noise) : Noise := { n with length := n.length.clock }

end Noise

end Famicom
