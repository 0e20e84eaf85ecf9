import Famicom.Picture.Controls

/-!
# The background pipeline

While the beam draws one tile, the chip fetches the next: the number of the tile, its attribute and
the two planes of its row go into a latch, one every second dot. Every eighth dot the latch is
loaded into the lower halves of four shift registers, which move by one place each dot and whose
upper halves hold the tile being drawn. The fine scroll chooses the place that is looked at.
-/

namespace Famicom

/-- The tile fetched ahead. -/
structure TileLatch where
  tile : UInt8 := 0
  /-- The palette of the tile, below four. -/
  palette : Nat := 0
  low : UInt8 := 0
  high : UInt8 := 0
  deriving DecidableEq, Repr

/-- The row of the latched tile starts here, for the plane at distance `plane`. -/
def TileLatch.rowAddress (l : TileLatch) (table : Nat) (line : Fin 8) (plane : Nat) : UInt16 :=
  UInt16.ofNat (table + l.tile.toNat * 16 + line + plane)

/-- The shift registers: two planes of pattern, two of palette. -/
structure Shifters where
  low : UInt16 := 0
  high : UInt16 := 0
  paletteLow : UInt16 := 0
  paletteHigh : UInt16 := 0
  deriving DecidableEq, Repr

namespace Shifters

/-- A byte with all bits alike. -/
def spread (on : Bool) : UInt8 := if on then 0xff else 0

/-- A register with its lower half replaced. -/
def reload (register : UInt16) (low : UInt8) : UInt16 := (register &&& 0xff00) ||| low.toUInt16

/-- Loads the lower halves from the latch. -/
def load (s : Shifters) (l : TileLatch) : Shifters where
  low := reload s.low l.low
  high := reload s.high l.high
  paletteLow := reload s.paletteLow (spread (l.palette.testBit 0))
  paletteHigh := reload s.paletteHigh (spread (l.palette.testBit 1))

/-- Moves every register one place. -/
def shift (s : Shifters) : Shifters where
  low := s.low <<< 1
  high := s.high <<< 1
  paletteLow := s.paletteLow <<< 1
  paletteHigh := s.paletteHigh <<< 1

/-- The bit of a register that is `place` from its upper end. -/
def look (register : UInt16) (place : Fin 8) : Nat := (register.toNat.testBit (15 - place)).toNat

/-- The colour at a place, within its palette. -/
def colour (s : Shifters) (place : Fin 8) : Nat := 2 * look s.high place + look s.low place

/-- The palette at a place. -/
def palette (s : Shifters) (place : Fin 8) : Nat :=
  2 * look s.paletteHigh place + look s.paletteLow place

end Shifters

/-- A dot on which the pipeline runs: while a visible tile is drawn, and while the first tiles of
the next line are fetched. -/
def isFetchDot (dot : Nat) : Bool := (2 ≤ dot && dot ≤ 257) || (321 ≤ dot && dot ≤ 337)

end Famicom
