import Famicom.Picture.Ppu
import Famicom.Proofs.Picture.SpriteLine
import Mathlib.Logic.Function.Iterate

/-!
# Drawing a picture directly

What a program has set decides the picture: the control and mask bytes, the scroll address `t` with
the fine scroll, the colours, sprite memory and what the cartridge answers. `Ppu.directPixel` finds
each pixel from these alone, without a beam, a latch or a shift register.

A column of the screen is a column of a tile that lies so many tiles from the scroll position. The
fifteen bits `w` of the scroll position there,

```text
yyy NN YYYYY XXXXX
```

give the places to look at: the number of the tile, the line `y` of its pattern, and the quarter
`Y1 X1` of the attribute byte that belongs to it. A sprite shows where the first eight entries that
reach the line have it. Of the two layers an opaque sprite is seen, unless it is behind and the
background is opaque too; where neither is opaque, the backdrop is seen.

Nothing here reads the address in use, the latch, the shift registers or the sprites selected
before, so whatever they hold at the start of a frame cannot be seen in it. The bytes and the bits
are spelled out, and that the chip looks at the same ones is proved (`Ppu.tileRow_word`,
`Ppu.findSome?_selection`, `Ppu.mergedSlot_direct`).
-/

namespace Famicom

/-! ## Moving through the nametables -/

namespace ScrollAddress

/-- The address `lines` lines below and `tiles` tiles right of an address. -/
def move (a : ScrollAddress) (lines tiles : Nat) : ScrollAddress :=
  nextTile^[tiles] (nextLine^[lines] a)

theorem move_tile (a : ScrollAddress) (lines tiles : Nat) :
    a.move lines (tiles + 1) = (a.move lines tiles).nextTile :=
  Function.iterate_succ_apply' _ _ _

theorem move_line (a : ScrollAddress) (lines : Nat) :
    a.move (lines + 1) 0 = (a.move lines 0).nextLine :=
  Function.iterate_succ_apply' _ _ _

theorem withColumnOf_nextTile (a source : ScrollAddress) :
    a.nextTile.withColumnOf source = a.withColumnOf source := by
  unfold nextTile withColumnOf
  split <;> rfl

theorem withColumnOf_nextLine (a source : ScrollAddress) :
    a.nextLine.withColumnOf source = (a.withColumnOf source).nextLine := by
  unfold nextLine withColumnOf
  dsimp only
  split
  · split <;> rfl
  · rfl

/-- Back at the column of the address that one has come from, only the lines are left. -/
theorem withColumnOf_move (a : ScrollAddress) (lines tiles : Nat) :
    (a.move lines tiles).withColumnOf a = a.move lines 0 := by
  induction tiles with
  | zero =>
    induction lines with
    | zero => rfl
    | succ lines ih => rw [move_line, withColumnOf_nextLine, ih]
  | succ tiles ih => rw [move_tile, withColumnOf_nextTile, ih]

/-- With column and row both taken from an address, it is that address. -/
theorem withRowOf_of_column {a source : ScrollAddress} (h : a.withColumnOf source = a) :
    a.withRowOf source = source := by
  rw [← h]
  rfl

end ScrollAddress

/-! ## The background -/

namespace ScrollAddress

/-- The fields of an address as digits of its fifteen bits. -/
theorem digits_word (a : ScrollAddress) :
    a.word % 0x20 = a.coarseX ∧ a.word / 0x20 % 0x20 = a.coarseY ∧
      a.word / 0x400 % 4 = a.table ∧ a.word / 0x1000 = a.fineY := by
  have hx := a.coarseX.isLt
  have hy := a.coarseY.isLt
  have hf := a.fineY.isLt
  have hright := Bool.toNat_le a.right
  have hlower := Bool.toNat_le a.lower
  unfold word table
  omega

theorem attributeAddress_eq (a : ScrollAddress) :
    a.attributeAddress = UInt16.ofNat
      (0x23c0 + a.word / 0x400 % 4 * 0x400 + a.word / 0x80 % 8 * 8 + a.word / 4 % 8) := by
  obtain ⟨hx, hy, htable, -⟩ := a.digits_word
  have hrow : a.word / 0x80 % 8 = a.coarseY.val / 4 := by omega
  have hcolumn : a.word / 4 % 8 = a.coarseX.val / 4 := by omega
  rw [attributeAddress, htable, hrow, hcolumn]

theorem attributeOf_eq (a : ScrollAddress) (byte : UInt8) :
    a.attributeOf byte =
      (byte.toNat >>> (2 * (2 * (a.word / 0x40 % 2) + a.word / 2 % 2))) % 4 := by
  obtain ⟨hx, hy, -, -⟩ := a.digits_word
  have hrow : a.word / 0x40 % 2 = a.coarseY.val / 2 % 2 := by omega
  have hcolumn : a.word / 2 % 2 = a.coarseX.val / 2 % 2 := by omega
  rw [hrow, hcolumn, attributeOf, Nat.mul_comm (a.coarseY.val / 2 % 2)]

end ScrollAddress

namespace Ppu

variable (p : Ppu) (fetch : UInt16 → UInt8)

/-- The row of pixels at the fifteen bits of a scroll address. -/
def tileRow (w : Nat) : TileRow :=
  let tile := (fetch (UInt16.ofNat (0x2000 + w % 0x1000))).toNat
  let plane := (if bit p.controls.control 4 then 0x1000 else 0) + 16 * tile + w / 0x1000
  let attributes := fetch
    (UInt16.ofNat (0x23c0 + w / 0x400 % 4 * 0x400 + w / 0x80 % 8 * 8 + w / 4 % 8))
  let quarter := 2 * (w / 0x40 % 2) + w / 2 % 2
  { low := fetch (UInt16.ofNat plane)
    high := fetch (UInt16.ofNat (plane + 8))
    palette := (attributes.toNat >>> (2 * quarter)) % 4 }

/-- The row of pixels shown on line `y`, `k` tiles from the left. -/
def rowAt (y k : Nat) : TileRow := p.tileRow fetch (p.controls.t.move y k).word

/-- The background at a place, as colour and palette; colour zero where it is off or clipped. -/
def directBackground (x y : Nat) : Nat × Nat :=
  if bit p.controls.mask 3 && (8 ≤ x || bit p.controls.mask 1) then
    let column := x + p.controls.fineX
    let row := p.rowAt fetch y (column / 8)
    (row.colour (column % 8), row.palette)
  else (0, 0)

theorem palette_tileRow_lt (w : Nat) : (p.tileRow fetch w).palette < 4 := Nat.mod_lt _ (by decide)

theorem directBackground_lt (x y : Nat) :
    (p.directBackground fetch x y).1 < 4 ∧ (p.directBackground fetch x y).2 < 4 := by
  unfold directBackground
  split
  · exact ⟨TileRow.colour_lt _ _, p.palette_tileRow_lt fetch _⟩
  · decide

/-! ## The sprites -/

/-- The sprite pixel at a place: that of the first entry which is opaque there, of those that the
line holds. -/
def directSprite (x y : Nat) : Option SpritePixel :=
  if bit p.controls.mask 4 && (8 ≤ x || bit p.controls.mask 2) then
    let tall := bit p.controls.control 5
    let table := if bit p.controls.control 3 then 0x1000 else 0
    (p.sprites.held (y - 1) tall).findSome? (p.sprites.entryPixel? (y - 1) tall table fetch · x)
  else none

theorem range_directSprite {x y : Nat} {s : SpritePixel}
    (h : p.directSprite fetch x y = some s) : 0 < s.colour ∧ s.colour < 4 ∧ s.palette < 4 := by
  unfold directSprite at h
  split at h
  · obtain ⟨i, -, hi⟩ := List.exists_of_findSome?_eq_some h
    exact p.sprites.range_entryPixel? _ _ _ fetch i hi
  · exact absurd h.symm (Option.some_ne_none s)

/-! ## The two layers together -/

/-- The cell of palette memory that an opaque background shows at a place. -/
def backgroundCell? (x y : Nat) : Option Nat :=
  let (colour, palette) := p.directBackground fetch x y
  if colour = 0 then none else some (4 * palette + colour)

/-- The cell of palette memory that a sprite pixel shows, after the sixteen of the background. -/
def spriteCell (s : SpritePixel) : Nat := 16 + 4 * s.palette + s.colour

/-- The cell of palette memory that a place shows, where the first one is the backdrop. -/
def directCell (x y : Nat) : Nat :=
  match p.backgroundCell? fetch x y, p.directSprite fetch x y with
  | none, none => 0
  | some cell, none => cell
  | none, some s => spriteCell s
  | some cell, some s => if s.behind then cell else spriteCell s

theorem backgroundCell?_lt {x y cell : Nat} (h : p.backgroundCell? fetch x y = some cell) :
    cell < 16 := by
  obtain ⟨hcolour, hpalette⟩ := p.directBackground_lt fetch x y
  unfold backgroundCell? at h
  dsimp only at h
  split at h
  · exact absurd h.symm (Option.some_ne_none cell)
  · obtain rfl := Option.some_inj.mp h
    omega

/-- A sprite shows a cell of its own, never one that stands for a cell of the background. -/
theorem range_spriteCell {x y : Nat} {s : SpritePixel}
    (h : p.directSprite fetch x y = some s) : spriteCell s < 32 ∧ spriteCell s % 4 ≠ 0 := by
  obtain ⟨hpositive, hcolour, hpalette⟩ := p.range_directSprite fetch h
  unfold spriteCell
  omega

theorem range_directCell (x y : Nat) :
    p.directCell fetch x y < 32 ∧
      (16 ≤ p.directCell fetch x y → p.directCell fetch x y % 4 ≠ 0) := by
  have hbelow {cell : Nat} (h : p.backgroundCell? fetch x y = some cell) :
      cell < 32 ∧ (16 ≤ cell → cell % 4 ≠ 0) := by
    have hcell := p.backgroundCell?_lt fetch h
    omega
  have habove {s : SpritePixel} (h : p.directSprite fetch x y = some s) :
      spriteCell s < 32 ∧ (16 ≤ spriteCell s → spriteCell s % 4 ≠ 0) :=
    (p.range_spriteCell fetch h).imp_right fun hdistinct _ ↦ hdistinct
  unfold directCell
  split
  case h_1 => decide
  case h_2 hcell _ => exact hbelow hcell
  case h_3 hs => exact habove hs
  case h_4 hcell hs =>
    split
    · exact hbelow hcell
    · exact habove hs

/-- The colour at a place. In the grey mode only the brightness of the colour number is left. -/
def directPixel (x y : Nat) : Colour :=
  let number := p.palette.cells.get ⟨p.directCell fetch x y, (p.range_directCell fetch x y).1⟩
  systemColours.get (if bit p.controls.mask 0 then low6 (number.val &&& 0x30) else number)

/-! ## The chip looks at the same bytes -/

theorem readSpace_of_lt {addr : Nat} (h : addr < paletteStart) :
    p.readSpace fetch (UInt16.ofNat addr) = fetch (UInt16.ofNat addr) := by
  have hpalette : paletteStart = 0x3f00 := rfl
  have haddr : (UInt16.ofNat addr).toNat = addr := UInt16.toNat_ofNat_of_lt' (by
    rw [show UInt16.size = 0x10000 from rfl]
    omega)
  have hbus : busAddress (UInt16.ofNat addr) = UInt16.ofNat addr := by
    rw [busAddress, haddr, Nat.mod_eq_of_lt (by omega)]
  unfold readSpace
  dsimp only
  rw [hbus, haddr]
  exact if_neg (Nat.not_le.mpr h)

/-- The row at a scroll address, by the fetches of the pipeline. -/
theorem tileRow_word (a : ScrollAddress) :
    p.tileRow fetch a.word =
      let row := p.controls.backgroundTable +
        (p.readSpace fetch a.tileAddress).toNat * 16 + a.fineY
      { low := p.readSpace fetch (UInt16.ofNat row)
        high := p.readSpace fetch (UInt16.ofNat (row + 8))
        palette := a.attributeOf (p.readSpace fetch a.attributeAddress) } := by
  have hline := a.fineY.isLt
  have htable : (if bit p.controls.control 4 then 0x1000 else 0) = p.controls.backgroundTable := rfl
  have hpatterns : p.controls.backgroundTable ≤ 0x1000 := by
    unfold Controls.backgroundTable
    split <;> decide
  have htile : p.readSpace fetch a.tileAddress =
      fetch (UInt16.ofNat (0x2000 + a.word % 0x1000)) :=
    p.readSpace_of_lt fetch (by rw [paletteStart]; omega)
  have hattribute : p.readSpace fetch a.attributeAddress = fetch (UInt16.ofNat
      (0x23c0 + a.word / 0x400 % 4 * 0x400 + a.word / 0x80 % 8 * 8 + a.word / 4 % 8)) := by
    rw [a.attributeAddress_eq]
    exact p.readSpace_of_lt fetch (by rw [paletteStart]; omega)
  rw [htile, hattribute, a.attributeOf_eq]
  unfold tileRow
  dsimp only
  have hnumber := UInt8.toNat_lt (fetch (UInt16.ofNat (0x2000 + a.word % 0x1000)))
  generalize (fetch (UInt16.ofNat (0x2000 + a.word % 0x1000))).toNat = tile at hnumber ⊢
  rw [htable, a.digits_word.2.2.2, Nat.mul_comm 16,
    p.readSpace_of_lt fetch (by rw [paletteStart]; omega),
    p.readSpace_of_lt fetch (by rw [paletteStart]; omega)]

/-- The sprites that a selection for a line finds, with their patterns. -/
def selection (y : Nat) : List LineSprite :=
  (p.sprites.select (y - 1) (bit p.controls.control 5) p.controls.spriteTable fetch).selected

/-- The selection shows what the entries themselves show. -/
theorem findSome?_selection (x y : Nat) :
    (p.selection fetch y).findSome? (·.pixel? x) =
      (p.sprites.held (y - 1) (bit p.controls.control 5)).findSome?
        (p.sprites.entryPixel? (y - 1) (bit p.controls.control 5) p.controls.spriteTable fetch
          · x) :=
  p.sprites.pixel?_select (y - 1) (bit p.controls.control 5) p.controls.spriteTable fetch x

/-- The chip merges the two layers to the same slot. -/
theorem mergedSlot_direct (x y : Nat) :
    mergedSlot (p.directBackground fetch x y) (p.directSprite fetch x y) =
      p.directCell fetch x y := by
  unfold directCell backgroundCell? mergedSlot spriteCell
  generalize p.directBackground fetch x y = background
  obtain ⟨colour, palette⟩ := background
  dsimp only
  by_cases hclear : colour = 0
  · rw [if_pos hclear, if_pos hclear]
    cases p.directSprite fetch x y with
    | none => rfl
    | some s =>
      dsimp only
      rw [decide_eq_true hclear]
      rfl
  · rw [if_neg hclear, if_neg hclear]
    cases p.directSprite fetch x y with
    | none => rfl
    | some s =>
      dsimp only
      rw [decide_eq_false hclear]
      cases s.behind with
      | false => rfl
      | true => rfl

/-- The colour of a cell that no other stands for. -/
theorem colour_directCell (x y : Nat) :
    p.palette.colour (p.directCell fetch x y) p.controls.grey = p.directPixel fetch x y := by
  obtain ⟨hlt, hdistinct⟩ := p.range_directCell fetch x y
  have hcell : Palette.cell (p.directCell fetch x y) = p.directCell fetch x y := by
    unfold Palette.cell
    dsimp only
    rw [Nat.mod_eq_of_lt hlt]
    exact if_neg fun h ↦ hdistinct h.1 h.2
  have hentry : p.palette.entry (p.directCell fetch x y) =
      p.palette.cells.get ⟨p.directCell fetch x y, hlt⟩ :=
    getElem_congr_idx hcell
  have hgrey : ∀ n : Fin 64, low6 (n.val / 16 * 16) = n &&& 0x30 := by decide
  have hnumber : (if p.controls.grey then
        low6 ((p.palette.entry (p.directCell fetch x y)).val / 16 * 16)
      else p.palette.entry (p.directCell fetch x y)) =
        if bit p.controls.mask 0 then p.palette.cells.get ⟨p.directCell fetch x y, hlt⟩ &&& 0x30
        else p.palette.cells.get ⟨p.directCell fetch x y, hlt⟩ := by
    rw [hgrey, hentry]
    rfl
  exact congrArg (fun number : Fin 64 ↦ systemColours[number]) hnumber

end Ppu

end Famicom
