/-!
# Sample pacing

Which processor cycles produce a sample: the phase grows by the sample rate with every cycle, and a
sample is due whenever it reaches the processor's frequency, which is then taken off again. At most
one sample is due in a cycle.

The phase is a 32-bit register, and a cycle that would leave it sets the `fault` latch; whatever the
pacer says after that is void. No rate up to the processor's frequency can do that.
-/

namespace Famicom

/-- Decides which cycles produce a sample. -/
structure SamplePacer where
  rate : Nat := 44100
  phase : Nat := 0
  /-- Some cycle left the 32-bit phase. -/
  fault : Bool := false
  deriving DecidableEq, Repr

namespace SamplePacer

/-- The first sum the phase cannot hold. -/
def phaseLimit : Nat := 0x100000000

/-- Starts again from an empty phase. -/
def restart (p : SamplePacer) : SamplePacer := { p with phase := 0 }

/-- Sets the rate and starts again. -/
def setRate (p : SamplePacer) (rate : Nat) : SamplePacer := { p with rate, phase := 0 }

/-- A processor cycle, telling whether a sample is due. -/
def clock (p : SamplePacer) (frequency : Nat) : Bool × SamplePacer :=
  let sum := p.phase + p.rate
  let fault := p.fault || phaseLimit ≤ sum
  if frequency ≤ sum then (true, { p with phase := sum - frequency, fault })
  else (false, { p with phase := sum, fault })

end SamplePacer

end Famicom
