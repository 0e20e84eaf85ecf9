/-!
# Exact clock division

The processor of the console runs slower than the picture beam, by a factor that is not a whole
number on every standard. A `RatioClock` hands out slow ticks for fast ones from an integer
accumulator, so that no rounding error ever builds up: after `n` fast ticks exactly
`⌊n · numerator / denominator⌋` slow ones have been given.

The accumulator is a 32-bit register. A tick that would leave it, or that divides by nothing, sets
the `fault` latch; whatever the clock says after that is void.
-/

namespace Famicom

/-- A ratio of two clock rates, kept as it was given and never reduced. -/
structure Ratio where
  numerator : Nat
  denominator : Nat
  deriving DecidableEq, Repr

/-- The ratio as a binary64 number. -/
def Ratio.toFloat (r : Ratio) : Float :=
  Float.ofNat r.numerator / Float.ofNat r.denominator

/-- Hands out slow ticks for fast ones in a fixed ratio. -/
structure RatioClock where
  ratio : Ratio
  /-- Fast time not yet paid out, in units of one `denominator`-th of a slow tick. -/
  accumulator : Nat := 0
  /-- Some tick divided by zero or left the 32-bit accumulator. -/
  fault : Bool := false
  deriving DecidableEq, Repr

namespace RatioClock

/-- The first sum the accumulator cannot hold. -/
def accumulatorLimit : Nat := 0x100000000

/-- One fast tick: the slow ticks now due, and the clock after it. -/
def tick (c : RatioClock) : Nat × RatioClock :=
  let sum := c.accumulator + c.ratio.numerator
  (sum / c.ratio.denominator,
    { c with
      accumulator := sum % c.ratio.denominator
      fault := c.fault || c.ratio.denominator == 0 || accumulatorLimit ≤ sum })

/-- The clock as it was when new. -/
def reset (c : RatioClock) : RatioClock := { c with accumulator := 0 }

/-- The results of `n` ticks in a row, put before the reverse of `done`. -/
def ticksFrom (done : List Nat) : Nat → RatioClock → List Nat × RatioClock
  | 0, c => (done.reverse, c)
  | n + 1, c => let (k, c) := c.tick; ticksFrom (k :: done) n c

/-- The results of `n` ticks in a row. -/
def ticks (n : Nat) (c : RatioClock) : List Nat × RatioClock := ticksFrom [] n c

/-- The slow ticks given by `n` fast ones, added to `given`. -/
def totalFrom (given : Nat) : Nat → RatioClock → Nat × RatioClock
  | 0, c => (given, c)
  | n + 1, c => let (k, c) := c.tick; totalFrom (given + k) n c

/-- The slow ticks given by `n` fast ones. -/
def total (n : Nat) (c : RatioClock) : Nat × RatioClock := totalFrom 0 n c

end RatioClock

end Famicom
