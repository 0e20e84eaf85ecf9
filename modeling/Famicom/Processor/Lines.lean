/-!
# Interrupt lines

The two interrupt inputs of the processor, as latches: a request sets one, and the processor clears
it between instructions. Accepting the unmaskable interrupt drops a pending maskable one with it.
-/

namespace Famicom

/-- An interrupt that the processor enters between two instructions. -/
inductive Interrupt where
  /-- The one that cannot be masked. -/
  | nmi
  /-- The one that can. -/
  | irq
  deriving DecidableEq, Repr

/-- The interrupt latches. -/
structure Lines where
  /-- The interrupt that cannot be masked. -/
  nmi : Bool := false
  /-- The interrupt that can. -/
  irq : Bool := false
  deriving DecidableEq, Repr

namespace Lines

/-- Asks for the unmaskable interrupt. -/
def requestNmi (l : Lines) : Lines := { l with nmi := true }

/-- Asks for the maskable interrupt. -/
def requestIrq (l : Lines) : Lines := { l with irq := true }

/-- The unmaskable interrupt has been accepted. -/
def acknowledgeNmi (_ : Lines) : Lines := { nmi := false, irq := false }

/-- The maskable interrupt has been accepted, or its cause has gone. -/
def acknowledgeIrq (l : Lines) : Lines := { l with irq := false }

/-- Some interrupt has been accepted. -/
def acknowledge (l : Lines) : Interrupt → Lines
  | .nmi => l.acknowledgeNmi
  | .irq => l.acknowledgeIrq

/-- The interrupt that a look at the latches accepts, if any; the unmaskable one goes first. -/
def accepted? (l : Lines) (masked : Bool) : Option Interrupt :=
  if l.nmi then some .nmi else if l.irq && !masked then some .irq else none

/-- Nothing is asked for. -/
def clear (_ : Lines) : Lines := {}

end Lines

end Famicom
