import Famicom.Timing.RatioClock

/-!
# Broadcast standards

A console is built for one television standard, and everything that differs between the two
follows from it: how many lines a frame has, how fast the processor runs, and how many processor
cycles go with each dot of the beam.
-/

namespace Famicom

/-- The broadcast standard a console is built for. -/
inductive Television where
  | ntsc
  | pal
  deriving DecidableEq, Repr

namespace Television

/-- Dots on every line, on both standards. -/
def dotsPerLine : Nat := 341

/-- Visible columns. -/
def screenWidth : Nat := 256

/-- Visible lines. -/
def screenHeight : Nat := 240

/-- Lines in a frame, the pre-render line included. -/
def lines : Television → Nat
  | ntsc => 262
  | pal => 312

/-- Dots in a frame of full length. -/
def dotsPerFrame (tv : Television) : Nat := dotsPerLine * tv.lines

/-- The processor clock in hertz. -/
def cpuFrequency : Television → Nat
  | ntsc => 1789773
  | pal => 1662607

/-- Whether the last dot of the pre-render line is dropped on odd frames. -/
def dropsOddDot : Television → Bool
  | ntsc => true
  | pal => false

/-- Frames shown in one second. -/
def framesPerSecond : Television → Float
  | ntsc => 60.0988
  | pal => 50.007

/-- Processor cycles for each dot: one in three, or five in sixteen. -/
def cyclesPerDot : Television → Ratio
  | ntsc => ⟨1, 3⟩
  | pal => ⟨5, 16⟩

/-- The standard's name. -/
def name : Television → String
  | ntsc => "Ntsc"
  | pal => "Pal"

end Television

end Famicom
