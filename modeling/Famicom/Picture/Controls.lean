import Famicom.Picture.ScrollAddress

/-!
# The controls of the picture chip

What a program sets through the eight registers of the picture chip: the control and mask bytes, the
sprite address, the two scroll addresses with the fine horizontal scroll, and the toggle that tells
the first of two writes from the second. Of the two addresses, `t` is being assembled by the writes
and `v` is the one in use.
-/

namespace Famicom

/-- What a program has set. -/
structure Controls where
  control : UInt8 := 0
  mask : UInt8 := 0
  oamAddress : UInt8 := 0
  /-- The byte the next data read gives. -/
  dataBuffer : UInt8 := 0
  /-- The last byte on the bus between processor and picture chip. -/
  ioBus : UInt8 := 0
  /-- The address in use. -/
  v : ScrollAddress := .origin
  /-- The address being assembled. -/
  t : ScrollAddress := .origin
  /-- The first column within a tile. -/
  fineX : Fin 8 := low3 0
  /-- The next write to a register that takes two is the second. -/
  secondWrite : Bool := false
  deriving DecidableEq, Repr

namespace Controls

/-! ## What the control and mask bytes say -/

/-- An interrupt is wanted at the start of the vertical blank. -/
def nmiEnabled (c : Controls) : Bool := bit c.control 7

/-- How far a data access moves the address. -/
def increment (c : Controls) : Nat := if bit c.control 2 then 32 else 1

/-- The height of a sprite. -/
def spriteHeight (c : Controls) : Nat := if bit c.control 5 then 16 else 8

/-- Where the patterns of the background start. -/
def backgroundTable (c : Controls) : Nat := if bit c.control 4 then 0x1000 else 0

/-- Where the patterns of small sprites start. -/
def spriteTable (c : Controls) : Nat := if bit c.control 3 then 0x1000 else 0

/-- The background is shown. -/
def showsBackground (c : Controls) : Bool := bit c.mask 3

/-- Sprites are shown. -/
def showsSprites (c : Controls) : Bool := bit c.mask 4

/-- The background is shown in the eight leftmost columns too. -/
def showsBackgroundLeft (c : Controls) : Bool := bit c.mask 1

/-- Sprites are shown in the eight leftmost columns too. -/
def showsSpritesLeft (c : Controls) : Bool := bit c.mask 2

/-- Colours keep their brightness only. -/
def grey (c : Controls) : Bool := bit c.mask 0

/-- Either layer is shown. -/
def rendering (c : Controls) : Bool := c.showsBackground || c.showsSprites

/-! ## Writes -/

/-- Sets the control byte, whose lowest bits choose the nametable of `t`. -/
def writeControl (c : Controls) (value : UInt8) : Controls :=
  { c with control := value, t := { c.t with right := bit value 0, lower := bit value 1 } }

/-- Sets the mask byte. -/
def writeMask (c : Controls) (value : UInt8) : Controls := { c with mask := value }

/-- Sets the scroll position: the column first, then the line. -/
def writeScroll (c : Controls) (value : UInt8) : Controls :=
  let coarse := low5 (value.toNat / 8)
  let fine := low3 value.toNat
  if c.secondWrite then
    { c with t := { c.t with coarseY := coarse, fineY := fine }, secondWrite := false }
  else { c with t := { c.t with coarseX := coarse }, fineX := fine, secondWrite := true }

/-- Sets the address: its upper six bits first, then the lower byte, which puts it in use. -/
def writeAddress (c : Controls) (value : UInt8) : Controls :=
  if c.secondWrite then
    let t := ScrollAddress.ofWord (c.t.word / 0x100 * 0x100 + value.toNat)
    { c with t, v := t, secondWrite := false }
  else
    { c with
      t := .ofWord (value.toNat % 0x40 * 0x100 + c.t.word % 0x100)
      secondWrite := true }

/-- The next write to a register that takes two is the first. -/
def resetToggle (c : Controls) : Controls := { c with secondWrite := false }

/-! ## Movements of the address in use -/

/-- One tile to the right. -/
def nextTile (c : Controls) : Controls := { c with v := c.v.nextTile }

/-- One line down. -/
def nextLine (c : Controls) : Controls := { c with v := c.v.nextLine }

/-- Back to the column of `t`. -/
def restoreColumn (c : Controls) : Controls := { c with v := c.v.withColumnOf c.t }

/-- Back to the row of `t`. -/
def restoreRow (c : Controls) : Controls := { c with v := c.v.withRowOf c.t }

/-- After a data access. While the picture is being fetched the access moves the fetch position,
a tile to the right and a line down. -/
def advance (c : Controls) (fetching : Bool) : Controls :=
  if fetching then c.nextTile.nextLine else { c with v := c.v.step c.increment }

end Controls

end Famicom
