import Famicom.Picture.Background
import Famicom.Picture.Beam
import Famicom.Picture.Frame
import Famicom.Picture.Sprite

/-!
# The picture chip

The chip runs one dot at a time. A dot first updates the status flags, then fetches, then draws,
then samples the interrupt output, and last moves the beam. What the chip reads of the cartridge is
passed to it as a function of the address, so that nothing here depends on the board.

The interrupt output is the level *vertical blank and interrupt enabled*, sampled once a dot; an
interrupt is requested where the level rises. A program can therefore cause several in one vertical
blank by switching the enable bit, and miss one by reading the status register in time.
-/

namespace Famicom

/-- The picture chip. -/
structure Ppu where
  beam : Beam
  controls : Controls := {}
  /-- The vertical blank has started and nobody has asked since. -/
  vblank : Bool := false
  /-- The first sprite has met the background in this frame. -/
  spriteHit : Bool := false
  /-- More sprites than can be shown have met on a line of this frame. -/
  spriteOverflow : Bool := false
  palette : Palette := .blank
  sprites : SpriteUnit := .blank
  /-- The interrupt output when last sampled. -/
  nmiLevel : Bool := false
  latch : TileLatch := {}
  shifters : Shifters := {}
  frame : FrameBuffer := .blank

namespace Ppu

/-- The chip at power-on. -/
def powerOn (tv : Television) : Ppu := { beam := { television := tv } }

/-- Back to the state at power-on, except for the colours, sprite memory and the two pictures. -/
def reset (p : Ppu) : Ppu where
  beam := p.beam.reset
  palette := p.palette
  sprites := p.sprites.reset
  frame := p.frame

/-- The first address of the palette area, which the chip answers itself. -/
def paletteStart : Nat := 0x3f00

/-- An address within the fourteen bits of the chip's bus. -/
def busAddress (addr : UInt16) : UInt16 := UInt16.ofNat (addr.toNat % 0x4000)

/-- A read of the chip's address space, palette included. -/
def readSpace (p : Ppu) (fetch : UInt16 → UInt8) (addr : UInt16) : UInt8 :=
  let addr := busAddress addr
  if paletteStart ≤ addr.toNat then p.palette.read addr else fetch addr

/-! ## One dot -/

/-- The vertical blank starts on line 241 and ends on the pre-render line, which also clears the
sprite flags. -/
def updateStatus (p : Ppu) : Ppu :=
  if p.beam.isAt Beam.blankLine 1 then { p with vblank := true }
  else if p.beam.isAt Beam.preRenderLine 1 then
    { p with vblank := false, spriteHit := false, spriteOverflow := false }
  else p

/-- The fetch that belongs to a dot of the eight that a tile takes. -/
def fetchTile (p : Ppu) (fetch : UInt16 → UInt8) (dot : Nat) : Ppu :=
  match (dot - 1) % 8 with
  | 0 =>
    let tile := p.readSpace fetch p.controls.v.tileAddress
    { p with shifters := p.shifters.load p.latch, latch := { p.latch with tile } }
  | 2 =>
    let palette := p.controls.v.attributeOf (p.readSpace fetch p.controls.v.attributeAddress)
    { p with latch := { p.latch with palette } }
  | 4 =>
    let addr := p.latch.rowAddress p.controls.backgroundTable p.controls.v.fineY 0
    let low := p.readSpace fetch addr
    { p with latch := { p.latch with low } }
  | 6 =>
    let addr := p.latch.rowAddress p.controls.backgroundTable p.controls.v.fineY 8
    let high := p.readSpace fetch addr
    { p with latch := { p.latch with high } }
  | 7 => { p with controls := p.controls.nextTile }
  | _ => p

/-- The shift registers move while the background is shown. -/
def shift (p : Ppu) : Ppu :=
  if p.controls.showsBackground then { p with shifters := p.shifters.shift } else p

/-- The movements of the scroll address at the end of a line and of the vertical blank. -/
def scroll (p : Ppu) (dot : Nat) : Ppu :=
  if dot = 256 then { p with controls := p.controls.nextLine }
  else if dot = 257 then
    { p with shifters := p.shifters.load p.latch, controls := p.controls.restoreColumn }
  else if 280 ≤ dot ∧ dot ≤ 304 ∧ p.beam.line = Beam.preRenderLine then
    { p with controls := p.controls.restoreRow }
  else p

/-- Selects the sprites of the next line and fetches their patterns. -/
def selectSprites (p : Ppu) (fetch : UInt16 → UInt8) : Ppu :=
  let line := p.beam.line
  let height := p.controls.spriteHeight
  let found := p.sprites.evaluate line height
  { p with
    sprites := p.sprites.load found line height p.controls.spriteTable fetch
    spriteOverflow := p.spriteOverflow || found.overflow }

/-- Everything a dot fetches while the picture is being rendered. -/
def fetchDot (p : Ppu) (fetch : UInt16 → UInt8) : Ppu :=
  let dot := p.beam.dot
  let p := if isFetchDot dot then p.shift.fetchTile fetch dot else p
  let p := p.scroll dot
  if dot = 257 then p.selectSprites fetch else p

/-! ## One pixel -/

/-- The background at a column, as colour and palette; colour zero where there is none. -/
def backgroundAt (p : Ppu) (x : Nat) : Nat × Nat :=
  if p.controls.showsBackground && (8 ≤ x || p.controls.showsBackgroundLeft) then
    (p.shifters.colour p.controls.fineX, p.shifters.palette p.controls.fineX)
  else (0, 0)

/-- The sprite pixel at a column. -/
def spriteAt (p : Ppu) (x : Nat) : Option SpritePixel :=
  if p.controls.showsSprites && (8 ≤ x || p.controls.showsSpritesLeft) then p.sprites.pixel? x
  else none

/-- The palette slot that background and sprite show together. -/
def mergedSlot (background : Nat × Nat) (sprite : Option SpritePixel) : Nat :=
  let (colour, palette) := background
  let below := if colour = 0 then 0 else 4 * palette + colour
  match sprite with
  | some s => if colour = 0 || !s.behind then 0x10 + 4 * s.palette + s.colour else below
  | none => below

/-- The first sprite meets the background at a column. The last column does not count. -/
def hitsAt (background : Nat × Nat) (sprite : Option SpritePixel) (x : Nat) : Bool :=
  match sprite with
  | some s => s.first && background.1 != 0 && x != 255
  | none => false

/-- Draws the pixel at a place. While nothing is rendered that is the backdrop. -/
def drawPixel (p : Ppu) (x y : Nat) (hx : x < 256) (hy : y < 240) : Ppu :=
  if p.controls.rendering then
    let background := p.backgroundAt x
    let sprite := p.spriteAt x
    let colour := p.palette.colour (mergedSlot background sprite) p.controls.grey
    { p with
      spriteHit := p.spriteHit || hitsAt background sprite x
      frame := p.frame.draw x y colour hx hy }
  else
    let colour := p.palette.colour 0 p.controls.grey
    { p with frame := p.frame.draw x y colour hx hy }

/-- Draws the pixel under the beam, if the beam is on the picture. -/
def drawDot (p : Ppu) : Ppu :=
  let y := p.beam.line.toNat
  let x := p.beam.dot - 1
  if h : (0 ≤ p.beam.line ∧ y < 240) ∧ 1 ≤ p.beam.dot ∧ x < 256 then
    p.drawPixel x y h.2.2 h.1.2
  else p

/-! ## The whole dot -/

/-- The interrupt output. -/
def nmiOutput (p : Ppu) : Bool := p.vblank && p.controls.nmiEnabled

/-- What a dot did. -/
structure Tick where
  ppu : Ppu
  /-- The interrupt output rose. -/
  nmi : Bool
  /-- The dot was the last of a frame. -/
  frameDone : Bool

/-- Samples the interrupt output, telling whether it rose. -/
def sampleNmi (p : Ppu) : Bool × Ppu :=
  let level := p.nmiOutput
  (level && !p.nmiLevel, { p with nmiLevel := level })

/-- Moves the beam. The end of a frame shows the picture drawn. -/
def moveBeam (p : Ppu) (rendering : Bool) : Bool × Ppu :=
  let (frameDone, beam) := p.beam.advance rendering
  (frameDone,
    if frameDone then { p with beam, frame := p.frame.swap } else { p with beam })

/-- Runs the dot under the beam. -/
def tick (p : Ppu) (fetch : UInt16 → UInt8) : Tick :=
  let rendering := p.controls.rendering
  let p := p.updateStatus
  let p := if rendering && p.beam.onRenderLine then p.fetchDot fetch else p
  let p := p.drawDot
  let (nmi, p) := p.sampleNmi
  let (frameDone, p) := p.moveBeam rendering
  ⟨p, nmi, frameDone⟩

/-! ## The registers -/

/-- The byte of the status register, whose lower bits are those of the bus. -/
def statusByte (p : Ppu) : UInt8 :=
  UInt8.ofNat (p.vblank.toNat * 0x80 + p.spriteHit.toNat * 0x40 + p.spriteOverflow.toNat * 0x20 +
    p.controls.ioBus.toNat % 0x20)

/-- A data access moves the address, and collides with the fetches while a picture is fetched. -/
def advanceAddress (p : Ppu) : Ppu :=
  { p with controls := p.controls.advance (p.controls.rendering && p.beam.onRenderLine) }

/-- The address of a data access. -/
def dataAddress (p : Ppu) : UInt16 := busAddress (UInt16.ofNat p.controls.v.word)

/-- Reads through the data register. A read of memory gives the byte fetched by the read before it;
a read of the palette gives its byte at once, under the upper bits of the bus, and fetches the
nametable byte that the palette hides. -/
def readData (p : Ppu) (fetch : UInt16 → UInt8) : UInt8 × Ppu :=
  let addr := p.dataAddress
  if paletteStart ≤ addr.toNat then
    let value := p.palette.read addr ||| (p.controls.ioBus &&& 0xc0)
    let hidden := p.readSpace fetch (addr - 0x1000)
    (value, { p with controls := { p.controls with dataBuffer := hidden } }.advanceAddress)
  else
    let value := p.controls.dataBuffer
    let fetched := p.readSpace fetch addr
    (value, { p with controls := { p.controls with dataBuffer := fetched } }.advanceAddress)

/-- A processor read of register `index`. Registers that can only be written give the last byte on
the bus. -/
def busRead (p : Ppu) (fetch : UInt16 → UInt8) (index : Fin 8) : UInt8 × Ppu :=
  match index with
  | 2 =>
    let value := p.statusByte
    (value, { p with vblank := false, controls := { p.controls.resetToggle with ioBus := value } })
  | 4 =>
    let value := p.sprites.read p.controls.oamAddress
    (value, { p with controls := { p.controls with ioBus := value } })
  | 7 =>
    let (value, p) := p.readData fetch
    (value, { p with controls := { p.controls with ioBus := value } })
  | _ => (p.controls.ioBus, p)

/-- A byte on its way to the cartridge. -/
structure CartridgeWrite where
  addr : UInt16
  value : UInt8
  deriving DecidableEq, Repr

/-- Writes through the data register, to the palette or to the cartridge. -/
def writeData (p : Ppu) (value : UInt8) : Ppu × Option CartridgeWrite :=
  let addr := p.dataAddress
  if paletteStart ≤ addr.toNat then
    ({ p with palette := p.palette.write addr value }.advanceAddress, none)
  else (p.advanceAddress, some ⟨addr, value⟩)

/-- A processor write to register `index`, with what it sends on to the cartridge. -/
def busWrite (p : Ppu) (index : Fin 8) (value : UInt8) : Ppu × Option CartridgeWrite :=
  let p := { p with controls := { p.controls with ioBus := value } }
  match index with
  | 0 => ({ p with controls := p.controls.writeControl value }, none)
  | 1 => ({ p with controls := p.controls.writeMask value }, none)
  | 2 => (p, none)
  | 3 => ({ p with controls := { p.controls with oamAddress := value } }, none)
  | 4 =>
    ({ p with
      sprites := p.sprites.write p.controls.oamAddress value
      controls := { p.controls with oamAddress := p.controls.oamAddress + 1 } }, none)
  | 5 => ({ p with controls := p.controls.writeScroll value }, none)
  | 6 => ({ p with controls := p.controls.writeAddress value }, none)
  | 7 => p.writeData value

end Ppu

end Famicom
