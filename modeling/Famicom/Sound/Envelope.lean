import Famicom.Word

/-!
# Envelopes

An envelope gives the pulse and noise channels their volume: either a constant, or a level that
falls from 15 to 0 one step every `period + 1` clocks, and then stays there or starts again.
-/

namespace Famicom

/-- A volume envelope. -/
structure Envelope where
  /-- The decay is to restart at the next clock. -/
  startPending : Bool := false
  /-- The decay starts again after it has ended. -/
  looping : Bool := false
  /-- The volume is `period` itself. -/
  constant : Bool := false
  period : Nat := 0
  /-- Clocks left before the level falls. -/
  divider : Nat := 0
  /-- The level, 15 at most. -/
  decay : Nat := 0
  deriving DecidableEq, Repr

namespace Envelope

/-- The level a decay starts from. -/
def peak : Nat := 15

/-- Sets the envelope from a register byte. -/
def write (e : Envelope) (value : UInt8) : Envelope :=
  { e with looping := bit value 5, constant := bit value 4, period := value.toNat % 16 }

/-- Restarts the decay at the next clock. -/
def restart (e : Envelope) : Envelope := { e with startPending := true }

/-- A quarter-frame clock. -/
def clock (e : Envelope) : Envelope :=
  if e.startPending then { e with startPending := false, decay := peak, divider := e.period }
  else if e.divider = 0 then
    let decay := if 0 < e.decay then e.decay - 1 else if e.looping then peak else 0
    { e with divider := e.period, decay }
  else { e with divider := e.divider - 1 }

/-- The volume now. -/
def volume (e : Envelope) : Nat := if e.constant then e.period else e.decay

end Envelope

end Famicom
