import Famicom.Number.Binary
import Famicom.Television

/-!
# The period of a frame

How long one frame takes on the wall clock, in whole nanoseconds, at a given multiple of real time.
The quotient `1 / (rate · speed)` is taken in binary64; the nearest whole number of nanoseconds to
that value is then computed exactly, a tie going to the even neighbour. A quotient that is negative,
not a number, or at least `2 ^ 64` seconds has no period, and the frame is not paced at all.
-/

namespace Famicom

open Number

/-- A length of time in whole nanoseconds. -/
structure Period where
  nanoseconds : Nat
  deriving DecidableEq, Repr

namespace Period

/-- Nanoseconds in a second. -/
def perSecond : Nat := 1000000000

/-- No time at all: frames follow each other without a pause. -/
def unpaced : Period := ⟨0⟩

/-- The whole seconds of a period. -/
def seconds (p : Period) : Nat := p.nanoseconds / perSecond

/-- What remains beside the whole seconds. -/
def subsecond (p : Period) : Nat := p.nanoseconds % perSecond

/-- Seconds that no period reaches. -/
def limit : Nat := 0x10000000000000000

/-- The nearest period to `seconds`, given by the bits of a binary64 number. -/
def ofSecondsBits? (bits : Nat) : Option Period :=
  let format := BinaryFormat.binary64
  match format.quanta? bits with
  | none => none
  | some quanta =>
    if format.isNegative bits && quanta != 0 then none
    else if limit <<< format.quantum ≤ quanta then none
    else some ⟨divNearestEven (quanta * perSecond) (1 <<< format.quantum)⟩

/-- The length of a frame at `rate` frames a second and `speed` times real time. -/
def ofFrameRate (rate speed : Float) : Period :=
  (ofSecondsBits? (1.0 / (rate * speed)).toBits.toNat).getD unpaced

end Period

/-- The length of a frame at `speed` times real time. -/
def Television.framePeriod (tv : Television) (speed : Float) : Period :=
  Period.ofFrameRate tv.framesPerSecond speed

end Famicom
