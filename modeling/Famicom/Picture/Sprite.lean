import Famicom.Word

/-!
# Sprites

Sprite memory describes 64 sprites in four bytes each: the line above the sprite, its tile, its
attributes and its column. Before each line the first eight sprites that reach it are selected in
the order of memory, and their row of pattern is fetched; when a ninth reaches the line, the chip
reports an overflow. Where several of the selected sprites are opaque, the first one shows.
-/

namespace Famicom

/-- The bits of the attribute byte that exist; the others read as zero. -/
def spriteAttributeMask : UInt8 := 0xe3

/-- A sprite as sprite memory describes it. -/
structure Sprite where
  /-- Its place in sprite memory. -/
  index : Nat
  /-- One less than its first line. -/
  y : UInt8
  tile : UInt8
  attributes : UInt8
  x : UInt8
  deriving DecidableEq, Repr

namespace Sprite

/-- Which of the four sprite palettes it uses. -/
def palette (s : Sprite) : Nat := s.attributes.toNat % 4

/-- An opaque background covers it. -/
def isBehind (s : Sprite) : Bool := bit s.attributes 5

/-- It is flipped left to right. -/
def isFlippedX (s : Sprite) : Bool := bit s.attributes 6

/-- It is flipped top to bottom. -/
def isFlippedY (s : Sprite) : Bool := bit s.attributes 7

/-- Its row on the line after `line`, counted from its top. -/
def row (s : Sprite) (line : Int) : Int := line - s.y.toNat

/-- It reaches the line after `line`. -/
def reaches (s : Sprite) (line : Int) (height : Nat) : Bool :=
  0 ≤ s.row line && s.row line < height

/-- The row of its pattern to show on the line after `line`, for a sprite that reaches it. -/
def patternRow (s : Sprite) (line : Int) (height : Nat) : Nat :=
  let row := (s.row line).toNat
  if s.isFlippedY then height - 1 - row else row

/-- Where the lower plane of a row of its pattern is. A tall sprite names two tiles on top of each
other, in the pattern table that the lowest bit of the tile chooses. -/
def rowAddress (s : Sprite) (height table row : Nat) : Nat :=
  if height = 16 then
    s.tile.toNat % 2 * 0x1000 + (s.tile.toNat / 2 * 2 + row / 8) * 16 + row % 8
  else table + s.tile.toNat * 16 + row

/-- Where the lower plane of the row for the line after `line` is. -/
def patternAddress (s : Sprite) (line : Int) (height table : Nat) : UInt16 :=
  UInt16.ofNat (s.rowAddress height table (s.patternRow line height))

end Sprite

/-- A sprite selected for a line, with its row of pattern. -/
structure LineSprite where
  sprite : Sprite
  low : UInt8
  high : UInt8
  deriving DecidableEq, Repr

/-- An opaque pixel of a sprite. -/
structure SpritePixel where
  /-- The colour within the palette, never zero. -/
  colour : Nat
  palette : Nat
  behind : Bool
  /-- It belongs to the first sprite of sprite memory. -/
  first : Bool
  deriving DecidableEq, Repr

/-- The pixel of a selected sprite at a column, if it is opaque there. -/
def LineSprite.pixel? (s : LineSprite) (x : Nat) : Option SpritePixel :=
  let offset := x - s.sprite.x.toNat
  if s.sprite.x.toNat ≤ x ∧ offset < 8 then
    let place := if s.sprite.isFlippedX then offset else 7 - offset
    let colour := 2 * (bit s.high place).toNat + (bit s.low place).toNat
    if colour = 0 then none
    else some ⟨colour, s.sprite.palette, s.sprite.isBehind, s.sprite.index == 0⟩
  else none

/-- Sprite memory and the sprites selected for the line being drawn. -/
structure SpriteUnit where
  oam : Vector UInt8 256
  selected : List LineSprite
  deriving DecidableEq

namespace SpriteUnit

/-- The sprites a line can show. -/
def perLine : Nat := 8

/-- Sprite memory as it is at power-on. -/
def blank : SpriteUnit := ⟨Vector.replicate 256 0xff, []⟩

/-- Selects no sprite. Sprite memory stays. -/
def reset (u : SpriteUnit) : SpriteUnit := { u with selected := [] }

/-- The byte of sprite memory at an address. -/
def byte (u : SpriteUnit) (addr : UInt8) : UInt8 :=
  have : addr.toNat < 256 := addr.toNat_lt
  u.oam[addr.toNat]

/-- A read by the processor. -/
def read (u : SpriteUnit) (addr : UInt8) : UInt8 :=
  if addr.toNat % 4 = 2 then u.byte addr &&& spriteAttributeMask else u.byte addr

/-- A write by the processor. -/
def write (u : SpriteUnit) (addr value : UInt8) : SpriteUnit :=
  { u with oam := u.oam.set addr.toNat value (UInt8.toNat_lt addr) }

/-- The sprite at a place of sprite memory. -/
def sprite (u : SpriteUnit) (i : Fin 64) : Sprite where
  index := i
  y := u.oam[4 * i.val]
  tile := u.oam[4 * i.val + 1]
  attributes := u.oam[4 * i.val + 2] &&& spriteAttributeMask
  x := u.oam[4 * i.val + 3]

/-- The sprites that reach the line after `line`, in the order of sprite memory. -/
def reaching (u : SpriteUnit) (line : Int) (height : Nat) : List Sprite :=
  ((List.finRange 64).map u.sprite).filter (·.reaches line height)

/-- What the selection for the line after `line` finds. -/
structure Evaluation where
  /-- The sprites to show. -/
  shown : List Sprite
  /-- More sprites reach the line than it can show. -/
  overflow : Bool
  deriving DecidableEq, Repr

/-- Selects the sprites for the line after `line`. -/
def evaluate (u : SpriteUnit) (line : Int) (height : Nat) : Evaluation :=
  let reaching := u.reaching line height
  ⟨reaching.take perLine, perLine < reaching.length⟩

/-- The addresses of the patterns of a selection, in the order they are fetched. -/
def Evaluation.fetches (e : Evaluation) (line : Int) (height table : Nat) : List UInt16 :=
  e.shown.flatMap fun s ↦
    let addr := s.patternAddress line height table
    [addr, addr + 8]

/-- Fetches the patterns of a selection. -/
def load (u : SpriteUnit) (e : Evaluation) (line : Int) (height table : Nat)
    (fetch : UInt16 → UInt8) : SpriteUnit :=
  { u with
    selected := e.shown.map fun s ↦
      let addr := s.patternAddress line height table
      ⟨s, fetch addr, fetch (addr + 8)⟩ }

/-- The pixel shown at a column. -/
def pixel? (u : SpriteUnit) (x : Nat) : Option SpritePixel := u.selected.findSome? (·.pixel? x)

end SpriteUnit

end Famicom
