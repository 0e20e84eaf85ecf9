import Famicom.Word

/-!
# Controllers

A controller holds eight buttons and hands them out one bit at a time. While its strobe line is
high the buttons are copied all the time and a read gives the state of A; once the strobe has
dropped, the `k`-th read gives button `k` of the copy, and every read after the eighth gives a one.
-/

namespace Famicom

/-- The buttons of a controller in the order they are read. -/
inductive Button where
  | a
  | b
  | select
  | start
  | up
  | down
  | left
  | right
  deriving DecidableEq, Repr

/-- The place of a button in the mask of held buttons, which is also its turn to be read. -/
def Button.index : Button → Nat
  | a => 0
  | b => 1
  | select => 2
  | start => 3
  | up => 4
  | down => 5
  | left => 6
  | right => 7

/-- The mask with this button alone held. -/
def Button.mask (button : Button) : UInt8 := 1 <<< UInt8.ofNat button.index

/-- A controller. -/
structure Pad where
  /-- The level of the strobe line. -/
  strobe : Bool := false
  /-- The buttons held now, one bit for each. -/
  held : UInt8 := 0
  /-- The buttons as they were when last copied. -/
  copied : UInt8 := 0
  /-- How many buttons of the copy have been read. -/
  reads : Nat := 0
  deriving DecidableEq, Repr

namespace Pad

/-- Copies the held buttons and starts reading from the first. -/
def reload (p : Pad) : Pad := { p with copied := p.held, reads := 0 }

/-- Copies the held buttons as long as the strobe is high. -/
def follow (p : Pad) : Pad := if p.strobe then p.reload else p

/-- Sets the strobe line to bit 0 of a byte. -/
def writeStrobe (p : Pad) (value : UInt8) : Pad := { p with strobe := bit value 0 }.follow

/-- The next button in bit 0. -/
def read (p : Pad) : UInt8 × Pad :=
  if p.strobe then ((bit p.held 0).toUInt8, p.reload)
  else if 8 ≤ p.reads then (1, p)
  else ((bit p.copied p.reads).toUInt8, { p with reads := p.reads + 1 })

/-- Holds exactly the buttons of a mask. -/
def setButtons (p : Pad) (mask : UInt8) : Pad := { p with held := mask }.follow

/-- Presses or releases one button. -/
def setButton (p : Pad) (button : Button) (pressed : Bool) : Pad :=
  p.setButtons (if pressed then p.held ||| button.mask else p.held &&& ~~~button.mask)

end Pad

end Famicom
