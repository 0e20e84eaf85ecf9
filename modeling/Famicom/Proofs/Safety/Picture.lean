import Famicom.Proofs.Safety.Cartridge
import Famicom.Proofs.Picture.Dot

/-!
# The picture chip does not crash

The checks of a dot and of an access to a register. The arithmetic of a dot needs two facts about
the chip: the beam is on a frame, and no more sprites are selected than a line can show. Everything
else follows from the widths of the fields, since an address of fifteen bits has room for one tile
or one line more exactly where it is moved by one.

The count of frames is the one register that time alone can exhaust; how far it is from that is a
hypothesis here.
-/

namespace Famicom

open Check

/-- The checks of an access to palette memory. -/
def Palette.cellChecks (n : Nat) : List Check := [.index 32 (cell n)]

/-- The checks of looking a colour up. -/
def Palette.colourChecks (p : Palette) (slot : Nat) : List Check :=
  cellChecks slot ++ [.index 64 (p.entry slot).val]

theorem Palette.allPass_cellChecks (n : Nat) : AllPass (cellChecks n) :=
  allPass_singleton.mpr (cell_lt n)

theorem Palette.allPass_colourChecks (p : Palette) (slot : Nat) : AllPass (p.colourChecks slot) :=
  (allPass_cellChecks slot).append (allPass_singleton.mpr (p.entry slot).isLt)

/-! ## Scroll addresses -/

namespace ScrollAddress

/-- The checks of moving one tile to the right. -/
def nextTileChecks (a : ScrollAddress) : List Check :=
  if a.coarseX.val = 31 then [] else [.fits .w16 (a.word + 1)]

/-- The checks of moving one line down. -/
def nextLineChecks (a : ScrollAddress) : List Check :=
  if a.fineY.val = 7 then
    if a.coarseY.val = 29 ∨ a.coarseY.val = 31 then [] else [.fits .w16 (a.coarseY.val + 1)]
  else [.fits .w16 (a.word + 0x1000)]

theorem allPass_nextTileChecks (a : ScrollAddress) : AllPass a.nextTileChecks := by
  have word := a.word_lt
  refine allPass_unless fun _ ↦ ?_
  simp only [allPass_cons, passes_fits, allPass_nil, and_true, Width.limit]
  omega

theorem allPass_nextLineChecks (a : ScrollAddress) : AllPass a.nextLineChecks := by
  have word := a.word_lt
  have row := a.coarseY.isLt
  refine allPass_ite.mpr ⟨fun _ ↦ allPass_unless fun _ ↦ ?_, fun _ ↦ ?_⟩
  · simp only [allPass_cons, passes_fits, allPass_nil, and_true, Width.limit]
    omega
  · simp only [allPass_cons, passes_fits, allPass_nil, and_true, Width.limit]
    omega

end ScrollAddress

/-- The checks of finding the row of the latched tile. -/
def TileLatch.rowChecks (l : TileLatch) (table : Nat) (line : Fin 8) (plane : Nat) : List Check :=
  let tile := l.tile.toNat * 16
  [.fits .w16 tile, .fits .w16 (table + tile), .fits .w16 (table + tile + line),
    .fits .w16 (table + tile + line + plane)]

theorem TileLatch.allPass_rowChecks (l : TileLatch) {table : Nat} (htable : table ≤ 0x1000)
    (line : Fin 8) {plane : Nat} (hplane : plane ≤ 8) :
    AllPass (l.rowChecks table line plane) := by
  have tile := l.tile.toNat_lt
  have line := line.isLt
  simp only [rowChecks, allPass_cons, passes_fits, allPass_nil, and_true, Width.limit]
  omega

theorem Controls.backgroundTable_le (c : Controls) : c.backgroundTable ≤ 0x1000 := by
  rw [backgroundTable]
  split <;> omega

theorem Controls.spriteTable_le (c : Controls) : c.spriteTable ≤ 0x1000 := by
  rw [spriteTable]
  split <;> omega

theorem Controls.spriteHeight_cases (c : Controls) : c.spriteHeight = 8 ∨ c.spriteHeight = 16 := by
  rw [spriteHeight]
  split
  · exact Or.inr rfl
  · exact Or.inl rfl

/-! ## Sprites -/

namespace Sprite

variable (s : Sprite) (line : Int) (height table : Nat)

/-- The checks of finding its row on a line. -/
def rowChecks : List Check :=
  [.fits .w64 (4 * s.index), .fits .w64 (4 * s.index + 4),
    .slice 256 (4 * s.index) (4 * s.index + 4), .fitsSigned (s.row line)]

/-- The checks of turning the row of a flipped sprite over. -/
def flipChecks : List Check :=
  if s.isFlippedY then [.subtract height 1, .subtract (height - 1) (s.row line).toNat] else []

/-- The checks of finding a row of its pattern, and the plane after it. -/
def addressChecks (row : Nat) : List Check :=
  let tile := s.tile.toNat
  (if height = 16 then
    let table := tile % 2 * 0x1000
    let stacked := tile / 2 * 2 + row / 8
    [.fits .w16 table] ++
    (if 8 ≤ row then [.fits .w16 stacked, .subtract row 8] else []) ++
    [.fits .w16 (stacked * 16), .fits .w16 (table + stacked * 16)]
  else [.fits .w16 (tile * 16), .fits .w16 (table + tile * 16)]) ++
  [.fits .w16 (s.rowAddress height table row), .fits .w16 (s.rowAddress height table row + 8)]

variable {s line height table}

theorem allPass_rowChecks (hindex : s.index < 64) (hlow : -1 ≤ line) (hhigh : line < 240) :
    AllPass (s.rowChecks line) := by
  have y := s.y.toNat_lt
  simp only [rowChecks, row, allPass_cons, passes_fits, passes_slice, passes_fitsSigned,
    allPass_nil, and_true, Width.limit]
  omega

theorem toNat_row_lt (h : s.reaches line height = true) : (s.row line).toNat < height := by
  simp only [reaches, Bool.and_eq_true, decide_eq_true_eq] at h
  omega

theorem allPass_flipChecks (h : s.reaches line height = true) :
    AllPass (s.flipChecks line height) := by
  have row := toNat_row_lt h
  refine allPass_if fun _ ↦ ?_
  simp only [allPass_cons, passes_subtract, allPass_nil, and_true]
  omega

theorem patternRow_lt (h : s.reaches line height = true) : s.patternRow line height < height := by
  have row := toNat_row_lt h
  simp only [patternRow]
  split <;> omega

theorem allPass_addressChecks {row : Nat} (hheight : height = 8 ∨ height = 16)
    (htable : table ≤ 0x1000) (hrow : row < height) :
    AllPass (s.addressChecks height table row) := by
  have tile := s.tile.toNat_lt
  rcases hheight with rfl | rfl
  · simp only [addressChecks, rowAddress, Nat.reduceEqDiff, if_false, allPass_append, allPass_cons,
      passes_fits, allPass_nil, and_true, Width.limit]
    omega
  · have stacked : AllPass (if 8 ≤ row then
        [.fits .w16 (s.tile.toNat / 2 * 2 + row / 8), .subtract row 8] else []) := by
      refine allPass_if fun lower ↦ ?_
      simp only [allPass_cons, passes_fits, passes_subtract, allPass_nil, and_true, Width.limit]
      omega
    simp only [addressChecks, rowAddress, if_true, allPass_append, allPass_cons, passes_fits,
      allPass_nil, and_true, Width.limit]
    refine ⟨⟨⟨?_, stacked⟩, ?_⟩, ?_⟩ <;> omega

end Sprite

namespace SpriteUnit

/-- The checks of selecting the sprites for the line after `line`, when `count` have been selected
already. The ninth that reaches the line ends the search. -/
def selectChecks (slot : Slot) (line : Int) (height table : Nat) : (count : Nat) → List Sprite →
    List Check
  | _, [] => []
  | count, s :: rest =>
    s.rowChecks line ++
    if s.reaches line height then
      if count = perLine then []
      else
        let addr := s.patternAddress line height table
        s.flipChecks line height ++ s.addressChecks height table (s.patternRow line height) ++
        slot.readPpuChecks addr ++ slot.readPpuChecks (addr + 8) ++
        [.index perLine count, .fits .w64 (count + 1)] ++
        selectChecks slot line height table (count + 1) rest
    else selectChecks slot line height table count rest

theorem allPass_selectChecks {slot : Slot} (hslot : slot.IsSafe) {line : Int} (hlow : -1 ≤ line)
    (hhigh : line < 240) {height table : Nat} (hheight : height = 8 ∨ height = 16)
    (htable : table ≤ 0x1000) {count : Nat} (hcount : count ≤ perLine) {sprites : List Sprite}
    (hsprites : ∀ s ∈ sprites, s.index < 64) :
    AllPass (selectChecks slot line height table count sprites) := by
  induction sprites generalizing count with
  | nil => exact allPass_nil
  | cons s rest ih =>
    obtain ⟨hindex, hrest⟩ := List.forall_mem_cons.mp hsprites
    refine (Sprite.allPass_rowChecks hindex hlow hhigh).append
      (allPass_ite.mpr ⟨fun hreaches ↦ ?_, fun _ ↦ ih hcount hrest⟩)
    refine allPass_unless fun hroom ↦ ?_
    have free : count < perLine := Nat.lt_of_le_of_ne hcount hroom
    refine ((((Sprite.allPass_flipChecks hreaches).append ?_).append
      (hslot.allPass_readPpuChecks _)).append (hslot.allPass_readPpuChecks _)).append ?_ |>.append
      (ih free hrest)
    · exact Sprite.allPass_addressChecks hheight htable (Sprite.patternRow_lt hreaches)
    · rw [perLine] at free
      simp only [allPass_cons, passes_index, passes_fits, allPass_nil, and_true, Width.limit,
        perLine]
      omega

/-- The checks of looking for an opaque pixel at a column, up to the first that there is. -/
def pixelChecks (x : Nat) : List LineSprite → List Check
  | [] => []
  | s :: rest =>
    let offset := x - s.sprite.x.toNat
    (if s.sprite.x.toNat ≤ x ∧ offset < 8 then [.subtract 7 offset, .shift 8 (7 - offset)]
      else []) ++
    if (s.pixel? x).isSome then [] else pixelChecks x rest

theorem allPass_pixelChecks (x : Nat) (selected : List LineSprite) :
    AllPass (pixelChecks x selected) := by
  induction selected with
  | nil => exact allPass_nil
  | cons s rest ih =>
    refine AllPass.append (allPass_if fun inside ↦ ?_)
      (allPass_unless fun _ ↦ ih)
    simp only [allPass_cons, passes_subtract, passes_shift, allPass_nil, and_true]
    omega

end SpriteUnit

/-! ## A dot -/

/-- The checks of moving the beam. -/
def Beam.advanceChecks (b : Beam) (rendering : Bool) : List Check :=
  if b.dropsDot rendering then []
  else
    .fits .w16 (b.dot + 1) ::
      if b.dot + 1 < Television.dotsPerLine then []
      else
        [.fitsSigned (b.line + 1), .fitsSigned b.lastLine] ++
        if b.line < b.lastLine then [] else [.fits .w64 (b.frames + 1)]

theorem Beam.IsOnFrame.allPass_advanceChecks {b : Beam} (h : b.IsOnFrame)
    (hframes : b.frames + 1 < Width.w64.limit) (rendering : Bool) :
    AllPass (b.advanceChecks rendering) := by
  obtain ⟨hge, hle, hdot⟩ := h
  have lines : b.television.lines ≤ 312 := by cases b.television <;> decide
  rw [lastLine_eq] at hle
  rw [Television.dotsPerLine] at hdot
  refine allPass_unless fun _ ↦ allPass_cons.mpr ⟨?_, ?_⟩
  · rw [passes_fits, Width.limit]
    omega
  · refine allPass_unless fun _ ↦ AllPass.append ?_ ?_
    · simp only [allPass_cons, passes_fitsSigned, allPass_nil, and_true, lastLine_eq]
      omega
    · exact allPass_unless fun _ ↦ allPass_singleton.mpr hframes

namespace Ppu

/-- The checks of a read of the chip's address space. -/
def readSpaceChecks (slot : Slot) (addr : UInt16) : List Check :=
  let addr := busAddress addr
  if paletteStart ≤ addr.toNat then Palette.cellChecks addr.toNat else slot.readPpuChecks addr

/-- The checks of the fetch that belongs to a dot of the eight that a tile takes. -/
def fetchTileChecks (p : Ppu) (slot : Slot) (dot : Nat) : List Check :=
  let v := p.controls.v
  let table := p.controls.backgroundTable
  .subtract dot 1 ::
    match (dot - 1) % 8 with
    | 0 => readSpaceChecks slot v.tileAddress
    | 2 => readSpaceChecks slot v.attributeAddress
    | 4 => p.latch.rowChecks table v.fineY 0 ++
        readSpaceChecks slot (p.latch.rowAddress table v.fineY 0)
    | 6 => p.latch.rowChecks table v.fineY 8 ++
        readSpaceChecks slot (p.latch.rowAddress table v.fineY 8)
    | 7 => v.nextTileChecks
    | _ => []

/-- The checks of the movements of the scroll address. -/
def scrollChecks (p : Ppu) (dot : Nat) : List Check :=
  if dot = 256 then p.controls.v.nextLineChecks else []

/-- The checks of selecting the sprites of the next line. -/
def selectSpritesChecks (p : Ppu) (slot : Slot) : List Check :=
  SpriteUnit.selectChecks slot p.beam.line p.controls.spriteHeight p.controls.spriteTable 0
    ((List.finRange 64).map p.sprites.sprite)

/-- The checks of everything a dot fetches. -/
def fetchDotChecks (p : Ppu) (slot : Slot) : List Check :=
  let dot := p.beam.dot
  let moved := if isFetchDot dot then p.shift.fetchTile slot.readPpu dot else p
  (if isFetchDot dot then p.shift.fetchTileChecks slot dot else []) ++ moved.scrollChecks dot ++
    if dot = 257 then (moved.scroll dot).selectSpritesChecks slot else []

/-- The checks of drawing the pixel at a place. -/
def drawPixelChecks (p : Ppu) (x y : Nat) : List Check :=
  let c := p.controls
  (if c.rendering then
    (if c.showsBackground && (8 ≤ x || c.showsBackgroundLeft) then [.shift 16 c.fineX.val]
      else []) ++
    (if c.showsSprites && (8 ≤ x || c.showsSpritesLeft) then
      .slice SpriteUnit.perLine 0 p.sprites.selected.length ::
        SpriteUnit.pixelChecks x p.sprites.selected
      else []) ++
    p.palette.colourChecks (mergedSlot (p.backgroundAt x) (p.spriteAt x))
  else p.palette.colourChecks 0) ++
  [.fits .w64 (y * Television.screenWidth), .fits .w64 (FrameBuffer.place x y),
    .index pixelCount (FrameBuffer.place x y)]

/-- The checks of drawing the pixel under the beam. -/
def drawDotChecks (p : Ppu) : List Check :=
  let y := p.beam.line.toNat
  let x := p.beam.dot - 1
  if (0 ≤ p.beam.line ∧ y < 240) ∧ 1 ≤ p.beam.dot ∧ x < 256 then
    .subtract p.beam.dot 1 :: p.drawPixelChecks x y
  else []

/-- The checks of a dot. -/
def tickChecks (p : Ppu) (slot : Slot) : List Check :=
  (if p.controls.rendering && p.beam.onRenderLine then p.updateStatus.fetchDotChecks slot
    else []) ++
  (p.fetched slot.readPpu).drawDotChecks ++ p.beam.advanceChecks p.controls.rendering

section

variable {slot : Slot} (hslot : slot.IsSafe)

include hslot

theorem allPass_readSpaceChecks (addr : UInt16) : AllPass (readSpaceChecks slot addr) :=
  allPass_ite.mpr ⟨fun _ ↦ Palette.allPass_cellChecks _, fun _ ↦ hslot.allPass_readPpuChecks _⟩

theorem allPass_fetchTileChecks (p : Ppu) {dot : Nat} (hdot : isFetchDot dot = true) :
    AllPass (p.fetchTileChecks slot dot) := by
  have table := p.controls.backgroundTable_le
  refine allPass_cons.mpr ⟨?_, ?_⟩
  · simp only [isFetchDot, Bool.or_eq_true, Bool.and_eq_true, decide_eq_true_eq] at hdot
    rw [passes_subtract]
    omega
  · split
    · exact allPass_readSpaceChecks hslot _
    · exact allPass_readSpaceChecks hslot _
    · exact (p.latch.allPass_rowChecks table _ (by decide)).append (allPass_readSpaceChecks hslot _)
    · exact (p.latch.allPass_rowChecks table _ (by decide)).append (allPass_readSpaceChecks hslot _)
    · exact p.controls.v.allPass_nextTileChecks
    · exact allPass_nil

theorem allPass_selectSpritesChecks (p : Ppu) (hlow : -1 ≤ p.beam.line)
    (hhigh : p.beam.line < 240) : AllPass (p.selectSpritesChecks slot) := by
  refine SpriteUnit.allPass_selectChecks hslot hlow hhigh p.controls.spriteHeight_cases
    p.controls.spriteTable_le (Nat.zero_le _) fun s hs ↦ ?_
  obtain ⟨i, -, rfl⟩ := List.mem_map.mp hs
  exact i.isLt

end

theorem allPass_scrollChecks (p : Ppu) (dot : Nat) : AllPass (p.scrollChecks dot) :=
  allPass_if fun _ ↦ p.controls.v.allPass_nextLineChecks

variable (p : Ppu) (fetch : UInt16 → UInt8)

theorem beam_moved (dot : Nat) :
    (if isFetchDot dot then p.shift.fetchTile fetch dot else p).beam = p.beam ∧
      (if isFetchDot dot then p.shift.fetchTile fetch dot else p).sprites = p.sprites := by
  obtain ⟨shifters, hshift⟩ := p.shift_eq
  obtain ⟨v, latch, shifters', hfetch⟩ := p.shift.fetchTile_eq fetch dot
  rw [hfetch, hshift]
  split <;> exact ⟨rfl, rfl⟩

theorem beam_scroll (dot : Nat) :
    (p.scroll dot).beam = p.beam ∧ (p.scroll dot).sprites = p.sprites := by
  obtain ⟨v, shifters, hscroll⟩ := p.scroll_eq dot
  rw [hscroll]
  exact ⟨rfl, rfl⟩

theorem allPass_fetchDotChecks {slot : Slot} (hslot : slot.IsSafe) (hlow : -1 ≤ p.beam.line)
    (hhigh : p.beam.line < 240) : AllPass (p.fetchDotChecks slot) := by
  refine (AllPass.append ?_ (allPass_scrollChecks _ _)).append
    (allPass_if fun _ ↦ ?_)
  · exact allPass_if fun hdot ↦ allPass_fetchTileChecks hslot _ hdot
  · have hbeam := (beam_scroll _ p.beam.dot).1.trans (p.beam_moved slot.readPpu p.beam.dot).1
    refine allPass_selectSpritesChecks hslot _ ?_ ?_ <;> rwa [hbeam]

theorem allPass_drawPixelChecks (hselected : p.sprites.selected.length ≤ SpriteUnit.perLine)
    {x y : Nat} (hx : x < 256) (hy : y < 240) : AllPass (p.drawPixelChecks x y) := by
  have place := FrameBuffer.place_lt hx hy
  have fineX := p.controls.fineX.isLt
  refine AllPass.append (allPass_ite.mpr ⟨fun _ ↦ ?_, fun _ ↦ p.palette.allPass_colourChecks 0⟩) ?_
  · refine (AllPass.append ?background ?sprites).append (p.palette.allPass_colourChecks _)
    case background =>
      exact allPass_if fun _ ↦ allPass_singleton.mpr (by rw [passes_shift]; omega)
    case sprites =>
      exact allPass_if fun _ ↦ allPass_cons.mpr ⟨⟨Nat.zero_le _, hselected⟩,
        SpriteUnit.allPass_pixelChecks x _⟩
  · simp only [FrameBuffer.place, pixelCount, Television.screenWidth, Television.screenHeight,
      allPass_cons, passes_fits, passes_index, allPass_nil, and_true, Width.limit]
    omega

theorem allPass_drawDotChecks (hselected : p.sprites.selected.length ≤ SpriteUnit.perLine) :
    AllPass p.drawDotChecks := by
  refine allPass_if fun ⟨⟨_, hy⟩, hdot, hx⟩ ↦ allPass_cons.mpr ⟨?_, ?_⟩
  · exact hdot
  · exact p.allPass_drawPixelChecks hselected hx hy

theorem length_selectSprites_le :
    (p.selectSprites fetch).sprites.selected.length ≤ SpriteUnit.perLine := by
  simp only [selectSprites, SpriteUnit.load, SpriteUnit.evaluate, List.length_map,
    List.length_take]
  exact Nat.min_le_left _ _

/-- No more sprites are selected than a line can show. -/
theorem length_fetched_le (h : p.sprites.selected.length ≤ SpriteUnit.perLine) :
    (p.fetched fetch).sprites.selected.length ≤ SpriteUnit.perLine := by
  obtain ⟨spriteHit, spriteOverflow, hstatus⟩ := p.updateStatus_eq
  have hsprites : p.updateStatus.sprites = p.sprites := by rw [hstatus]
  rw [fetched]
  split
  · rw [fetchDot]
    split
    · exact length_selectSprites_le _ fetch
    · rw [(beam_scroll _ _).2, (beam_moved _ _ _).2, hsprites]
      exact h
  · rw [hsprites]
    exact h

theorem length_tick_le (h : p.sprites.selected.length ≤ SpriteUnit.perLine) :
    (p.tick fetch).ppu.sprites.selected.length ≤ SpriteUnit.perLine := by
  have hfetched := p.length_fetched_le fetch h
  obtain ⟨spriteHit, frame, hdraw⟩ := (p.fetched fetch).drawDot_eq
  obtain ⟨frame', hmove⟩ :=
    (p.fetched fetch).drawDot.sampleNmi.2.moveBeam_eq p.controls.rendering
  rw [tick_fetched]
  dsimp only
  rw [hmove, hdraw]
  exact hfetched

theorem allPass_tickChecks {slot : Slot} (hslot : slot.IsSafe) (hframe : p.beam.IsOnFrame)
    (hframes : p.beam.frames + 1 < Width.w64.limit)
    (hselected : p.sprites.selected.length ≤ SpriteUnit.perLine) :
    AllPass (p.tickChecks slot) := by
  refine (AllPass.append (allPass_if fun hfetching ↦ ?_) ?_).append
    (hframe.allPass_advanceChecks hframes _)
  · obtain ⟨spriteHit, spriteOverflow, hstatus⟩ := p.updateStatus_eq
    have hbeam : p.updateStatus.beam = p.beam := by rw [hstatus]
    have hline : p.beam.line < 240 := of_decide_eq_true (Bool.and_eq_true_iff.mp hfetching).2
    refine p.updateStatus.allPass_fetchDotChecks hslot ?_ ?_
    · rw [hbeam]
      exact hframe.line_ge
    · rwa [hbeam]
  · exact allPass_drawDotChecks _ (p.length_fetched_le _ hselected)

/-! ## The registers -/

/-- The checks of moving the address after a data access. -/
def advanceChecks (p : Ppu) : List Check :=
  if p.controls.rendering && p.beam.onRenderLine then
    p.controls.v.nextTileChecks ++ p.controls.v.nextTile.nextLineChecks
  else []

/-- The checks of a read through the data register. -/
def readDataChecks (p : Ppu) (slot : Slot) : List Check :=
  let addr := p.dataAddress
  (if paletteStart ≤ addr.toNat then
    .subtract addr.toNat 0x1000 :: readSpaceChecks slot (addr - 0x1000) ++
      Palette.cellChecks addr.toNat
  else readSpaceChecks slot addr) ++ p.advanceChecks

/-- The checks of a write through the data register. -/
def writeDataChecks (p : Ppu) (slot : Slot) : List Check :=
  let addr := p.dataAddress
  (if paletteStart ≤ addr.toNat then Palette.cellChecks addr.toNat
  else slot.writePpuChecks addr) ++ p.advanceChecks

/-- The checks of a processor read of register `index`. -/
def busReadChecks (p : Ppu) (slot : Slot) (index : Fin 8) : List Check :=
  match index with
  | 4 => [.index 256 p.controls.oamAddress.toNat]
  | 7 => p.readDataChecks slot
  | _ => []

/-- The checks of a processor write to register `index`. -/
def busWriteChecks (p : Ppu) (slot : Slot) (index : Fin 8) : List Check :=
  match index with
  | 4 => [.index 256 p.controls.oamAddress.toNat]
  | 7 => p.writeDataChecks slot
  | _ => []

theorem allPass_advanceChecks : AllPass p.advanceChecks :=
  allPass_if fun _ ↦ p.controls.v.allPass_nextTileChecks.append
    (ScrollAddress.allPass_nextLineChecks _)

theorem allPass_busReadChecks {slot : Slot} (hslot : slot.IsSafe) (index : Fin 8) :
    AllPass (p.busReadChecks slot index) := by
  unfold busReadChecks
  split
  · exact allPass_singleton.mpr p.controls.oamAddress.toNat_lt
  · refine (allPass_ite.mpr ⟨fun hpalette ↦ ?_, fun _ ↦ allPass_readSpaceChecks hslot _⟩).append
      p.allPass_advanceChecks
    refine (AllPass.append (allPass_cons.mpr ⟨?_, allPass_readSpaceChecks hslot _⟩)
      (Palette.allPass_cellChecks _))
    rw [paletteStart] at hpalette
    rw [passes_subtract]
    omega
  · exact allPass_nil

theorem allPass_busWriteChecks {slot : Slot} (hslot : slot.IsSafe) (index : Fin 8) :
    AllPass (p.busWriteChecks slot index) := by
  unfold busWriteChecks
  split
  · exact allPass_singleton.mpr p.controls.oamAddress.toNat_lt
  · exact (allPass_ite.mpr ⟨fun _ ↦ Palette.allPass_cellChecks _,
      fun _ ↦ hslot.allPass_writePpuChecks _⟩).append p.allPass_advanceChecks
  · exact allPass_nil

end Ppu

end Famicom
