import Famicom.Word

/-!
# Length counters

A length counter silences its channel after a number of half frames. The number comes from a table
of note lengths, chosen by the upper five bits of a register byte.
-/

namespace Famicom

/-- The lengths a register byte can choose. -/
def noteLengths : Vector Nat 32 := #v[
  10, 254, 20, 2, 40, 4, 80, 6, 160, 8, 60, 10, 14, 12, 26, 14,
  12, 16, 24, 18, 48, 20, 96, 22, 192, 24, 72, 26, 16, 28, 32, 30]

/-- A length counter, gated by the enable bit of its channel. -/
structure LengthCounter where
  value : Nat := 0
  halted : Bool := false
  enabled : Bool := false
  deriving DecidableEq, Repr

namespace LengthCounter

/-- The length that a register byte chooses. -/
def lengthOf (value : UInt8) : Nat :=
  have : value.toNat < 256 := value.toNat_lt
  noteLengths[value.toNat / 8]

/-- Opens or closes the gate. Closing it silences the channel at once. -/
def setEnabled (c : LengthCounter) (enabled : Bool) : LengthCounter :=
  { c with enabled, value := if enabled then c.value else 0 }

/-- Stops the count or lets it go on. -/
def setHalted (c : LengthCounter) (halted : Bool) : LengthCounter := { c with halted }

/-- Starts a note of the length that a register byte chooses, if the gate is open. -/
def load (c : LengthCounter) (value : UInt8) : LengthCounter :=
  if c.enabled then { c with value := lengthOf value } else c

/-- A half-frame clock. -/
def clock (c : LengthCounter) : LengthCounter :=
  if c.halted then c else { c with value := c.value - 1 }

/-- The channel may sound. -/
def isActive (c : LengthCounter) : Bool := 0 < c.value

end LengthCounter

end Famicom
