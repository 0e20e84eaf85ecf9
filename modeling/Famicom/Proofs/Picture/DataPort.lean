import Famicom.Bus
import Famicom.Proofs.Cartridge.Cells

/-!
# The data port as a memory

A program reaches the memory of the picture chip through one register. It sets an address by two
writes, and every access through the register moves the address on. A write goes to its place at
once. A read comes one late: it gives the byte that the read before it has fetched. A block that is
written and then read again from the same address comes back behind the byte that was in the buffer,

```text
write A, d₁ … dₙ, A,  read n + 1 times   ↦   buffer, d₁, …, dₙ,
```

if its addresses select distinct cells. Where they do not, each read gives the last byte of the
block that has gone to its cell (`Bus.data_port_faithful`).

The address has fifteen bits, of which the bus carries fourteen (`Ppu.place`), so a block goes on
from the last address to the first. The last 256 addresses are the palette, which is inside the
chip. It is read without delay, and the buffer receives the nametable byte that the palette hides.

## What carries the proofs

While no picture is being fetched, every access moves the address by the same amount. A block is a
walk over the bus from one address (`Bus.StreamsFrom`), and what it leaves in the cartridge is said
of the board alone (`Board.lastByte?`). Neither setting an address nor writing touches the buffer
(`Bus.OnlyMoves`), which is why its old byte comes first.
-/

namespace Famicom

/-! ## The palette -/

namespace Palette

/-- Two addresses select one cell of the palette if they differ by a multiple of 32, or are both the
first of a palette of the same number. -/
theorem cell_eq_cell_iff (m n : Nat) :
    cell m = cell n ↔ m % 32 = n % 32 ∨ m % 4 = 0 ∧ n % 4 = 0 ∧ m % 16 = n % 16 := by
  unfold cell
  dsimp only
  split
  · split
    · omega
    · omega
  · split
    · omega
    · omega

theorem entry_write (p : Palette) (addr : UInt16) (value : UInt8) (n : Nat) :
    (p.write addr value).entry n =
      if cell n = cell addr.toNat then low6 value.toNat else p.entry n := by
  simp only [entry, write, Vector.getElem_set, eq_comm]

/-- A write is read through every address of its cell, without its upper two bits. -/
theorem read_write (p : Palette) (addr place : UInt16) (value : UInt8) :
    (p.write addr value).read place =
      if cell place.toNat = cell addr.toNat then value &&& 0x3f else p.read place := by
  have hmask : UInt8.ofNat (low6 value.toNat).val = value &&& 0x3f := by
    apply UInt8.toNat_inj.mp
    rw [UInt8.toNat_and, UInt8.toNat_ofNat', val_low6]
    exact (Nat.mod_eq_of_lt (by omega)).trans (Nat.and_two_pow_sub_one_eq_mod _ 6).symm
  rw [read, entry_write, read]
  split
  · exact hmask
  · rfl

end Palette

/-! ## Addresses of the port -/

/-- Between two pairs of writes, the two writes of an address set it, whatever it was before. -/
theorem Controls.writeAddress_writeAddress {c : Controls} (h : c.secondWrite = false)
    (high low ioBus : UInt8) :
    { { c with ioBus }.writeAddress high with ioBus := low }.writeAddress low =
      { c with
        ioBus := low
        v := .ofWord (high.toNat % 0x40 * 0x100 + low.toNat)
        t := .ofWord (high.toNat % 0x40 * 0x100 + low.toNat) } := by
  have hlow := low.toNat_lt
  -- the first write keeps the lower byte of what was set before, and the second replaces it
  have hupper (n : Nat) :
      (high.toNat % 0x40 * 0x100 + n % 0x100) % 0x8000 / 0x100 * 0x100 + low.toNat =
        high.toNat % 0x40 * 0x100 + low.toNat := by
    omega
  unfold writeAddress
  dsimp only
  rw [h, if_neg Bool.false_ne_true, if_pos rfl]
  dsimp only
  rw [ScrollAddress.word_ofWord, hupper]

namespace Ppu

/-- The address on the bus of the chip with a number, of which fourteen bits count. -/
def place (n : Nat) : UInt16 := UInt16.ofNat (n % 0x4000)

theorem toNat_place (n : Nat) : (place n).toNat = n % 0x4000 := by
  rw [place, UInt16.toNat_ofNat']
  omega

theorem dataAddress_eq (p : Ppu) : p.dataAddress = place p.controls.v.word := by
  have hword := p.controls.v.word_lt
  have hsmall : (UInt16.ofNat p.controls.v.word).toNat = p.controls.v.word := by
    rw [UInt16.toNat_ofNat']
    omega
  rw [dataAddress, busAddress, hsmall, place]

/-- While no picture is being fetched, an access moves the address by the increment. -/
theorem advanceAddress_eq {p : Ppu} (h : (p.controls.rendering && p.beam.onRenderLine) = false) :
    p.advanceAddress =
      { p with controls := { p.controls with v := p.controls.v.step p.controls.increment } } := by
  rw [advanceAddress, h]
  rfl

theorem advanceAddress_cases (p : Ppu) :
    ∃ v, p.advanceAddress = { p with controls := { p.controls with v } } := by
  unfold advanceAddress Controls.advance
  split
  · exact ⟨_, rfl⟩
  · exact ⟨_, rfl⟩

theorem busAddress_place (n : Nat) : busAddress (place n) = place n := by
  rw [busAddress, toNat_place, place, Nat.mod_mod]

end Ppu

/-- The palette does not see what of an address the bus leaves out. -/
theorem Palette.read_place (p : Palette) (addr : UInt16) :
    p.read (Ppu.place addr.toNat) = p.read addr := by
  have hcell : cell (Ppu.place addr.toNat).toNat = cell addr.toNat := by
    rw [Ppu.toNat_place, cell_eq_cell_iff]
    omega
  simp only [read, entry, hcell]

namespace Bus

open Ppu (place)

/-- Sets the address of the data port, the upper byte first. -/
def setAddress (b : Bus) (addr : UInt16) : Bus :=
  (b.write 0x2006 (highByte addr)).write 0x2006 (lowByte addr)

/-- Writes a byte through the data port. -/
def store (b : Bus) (value : UInt8) : Bus := b.write 0x2007 value

/-- Reads a byte through the data port. -/
def load (b : Bus) : UInt8 × Bus := b.read 0x2007

/-- Writes a block of bytes through the data port. -/
def storeAll (b : Bus) (bytes : List UInt8) : Bus := bytes.foldl store b

/-- Reads through the data port some times. -/
def loadMany : Nat → Bus → List UInt8 × Bus
  | 0, b => ([], b)
  | n + 1, b =>
    let (value, b) := b.load
    let (values, b) := loadMany n b
    (value :: values, b)

theorem setAddress_writePicture (b : Bus) (addr : UInt16) :
    b.setAddress addr = (b.writePicture 6 (highByte addr)).writePicture 6 (lowByte addr) := rfl

theorem store_writePicture (b : Bus) (value : UInt8) : b.store value = b.writePicture 7 value := rfl

/-- A read of the data register puts its byte on the bus. -/
theorem load_readData (b : Bus) :
    b.load =
      let (value, ppu) := b.ppu.readData b.slot.readPpu
      (value, { b with
        ppu := { ppu with controls := { ppu.controls with ioBus := value } } }) := rfl

/-- Between two pairs of writes, setting the address sets it, whatever it was before. -/
theorem setAddress_eq {b : Bus} (h : b.ppu.controls.secondWrite = false) (addr : UInt16) :
    b.setAddress addr =
      { b with ppu := { b.ppu with controls := { b.ppu.controls with
          ioBus := lowByte addr
          v := .ofWord (addr.toNat % 0x4000)
          t := .ofWord (addr.toNat % 0x4000) } } } := by
  have haddr := addr.toNat_lt
  have hlow : (lowByte addr).toNat = addr.toNat % 0x100 := UInt8.toNat_ofNat'
  have hhigh : (highByte addr).toNat = addr.toNat / 0x100 := by
    rw [highByte, UInt8.toNat_ofNat']
    omega
  have hword : (highByte addr).toNat % 0x40 * 0x100 + (lowByte addr).toNat =
      addr.toNat % 0x4000 := by
    rw [hlow, hhigh]
    omega
  rw [setAddress_writePicture]
  change ({ b with ppu := { b.ppu with controls :=
    { ({ b.ppu.controls with ioBus := highByte addr }.writeAddress (highByte addr)) with
      ioBus := lowByte addr }.writeAddress (lowByte addr) } } : Bus) = _
  rw [Controls.writeAddress_writeAddress h, hword]

/-- The second bus has the chip of the first, but for the addresses and the byte on the bus. -/
def OnlyMoves (b c : Bus) : Prop :=
  ∃ ioBus v t, c.ppu = { b.ppu with controls := { b.ppu.controls with ioBus, v, t } }

namespace OnlyMoves

variable {b c d : Bus}

theorem trans (h : b.OnlyMoves c) (h' : c.OnlyMoves d) : b.OnlyMoves d := by
  obtain ⟨_, _, _, hc⟩ := h
  obtain ⟨_, _, _, hd⟩ := h'
  rw [hc] at hd
  exact ⟨_, _, _, hd⟩

theorem idle (h : b.OnlyMoves c) :
    (c.ppu.controls.rendering && c.ppu.beam.onRenderLine) =
      (b.ppu.controls.rendering && b.ppu.beam.onRenderLine) := by
  obtain ⟨_, _, _, hc⟩ := h
  rw [hc]
  rfl

theorem increment (h : b.OnlyMoves c) :
    c.ppu.controls.increment = b.ppu.controls.increment := by
  obtain ⟨_, _, _, hc⟩ := h
  rw [hc]
  rfl

theorem secondWrite (h : b.OnlyMoves c) :
    c.ppu.controls.secondWrite = b.ppu.controls.secondWrite := by
  obtain ⟨_, _, _, hc⟩ := h
  rw [hc]

theorem dataBuffer (h : b.OnlyMoves c) :
    c.ppu.controls.dataBuffer = b.ppu.controls.dataBuffer := by
  obtain ⟨_, _, _, hc⟩ := h
  rw [hc]

theorem palette (h : b.OnlyMoves c) : c.ppu.palette = b.ppu.palette := by
  obtain ⟨_, _, _, hc⟩ := h
  rw [hc]

theorem setAddress (h : b.ppu.controls.secondWrite = false) (addr : UInt16) :
    b.OnlyMoves (b.setAddress addr) := by
  rw [setAddress_eq h]
  exact ⟨_, _, _, rfl⟩

end OnlyMoves

theorem slot_setAddress {b : Bus} (h : b.ppu.controls.secondWrite = false) (addr : UInt16) :
    (b.setAddress addr).slot = b.slot := by
  rw [setAddress_eq h]

theorem dataAddress_setAddress {b : Bus} (h : b.ppu.controls.secondWrite = false)
    (addr : UInt16) : (b.setAddress addr).ppu.dataAddress = place addr.toNat := by
  rw [setAddress_eq h, Ppu.dataAddress_eq, ScrollAddress.word_ofWord, place, place]
  congr 1
  omega

/-! ## A block through the port -/

section Streams

/-- The data port goes on from an address, and no picture is being fetched. -/
structure StreamsFrom (b : Bus) (first : Nat) : Prop where
  idle : (b.ppu.controls.rendering && b.ppu.beam.onRenderLine) = false
  address : b.ppu.dataAddress = place first

/-- The addresses of some accesses through the data port. -/
def streamPlaces (first increment n : Nat) : List UInt16 :=
  (List.range n).map fun i ↦ place (first + i * increment)

theorem length_streamPlaces (first increment n : Nat) :
    (streamPlaces first increment n).length = n := by
  rw [streamPlaces, List.length_map, List.length_range]

theorem streamPlaces_succ (first increment n : Nat) :
    streamPlaces first increment (n + 1) =
      place first :: streamPlaces (first + increment) increment n := by
  rw [streamPlaces, List.range_succ_eq_map, List.map_cons, List.map_map, Nat.zero_mul, Nat.add_zero]
  refine congrArg _ (List.map_congr_left fun i _ ↦ ?_)
  rw [Function.comp_apply, Nat.succ_mul, Nat.add_assoc, Nat.add_comm increment]

theorem streamsFrom_setAddress {b : Bus}
    (hidle : (b.ppu.controls.rendering && b.ppu.beam.onRenderLine) = false)
    (h : b.ppu.controls.secondWrite = false) (addr : UInt16) :
    (b.setAddress addr).StreamsFrom addr.toNat where
  idle := (OnlyMoves.setAddress h addr).idle.trans hidle
  address := dataAddress_setAddress h addr

variable {b : Bus} {first : Nat}

theorem StreamsFrom.step (h : b.StreamsFrom first) (ioBus dataBuffer : UInt8) (slot : Slot) :
    StreamsFrom { b with
      ppu := { b.ppu with controls := { b.ppu.controls with
        ioBus, dataBuffer, v := b.ppu.controls.v.step b.ppu.controls.increment } }
      slot } (first + b.ppu.controls.increment) where
  idle := h.idle
  address := by
    have haddress := h.address
    rw [Ppu.dataAddress_eq] at haddress ⊢
    have hplace := congrArg UInt16.toNat haddress
    rw [Ppu.toNat_place, Ppu.toNat_place] at hplace
    rw [ScrollAddress.step, ScrollAddress.word_ofWord, place, place]
    congr 1
    omega

theorem StreamsFrom.store (h : b.StreamsFrom first)
    (hbelow : first % 0x4000 < Ppu.paletteStart) (value : UInt8) :
    b.store value = { b with
      ppu := { b.ppu with controls := { b.ppu.controls with
        ioBus := value, v := b.ppu.controls.v.step b.ppu.controls.increment } }
      slot := b.slot.writePpu (place first) value } := by
  have hmemory : ¬Ppu.paletteStart ≤ (place first).toNat := by
    rw [Ppu.toNat_place]
    omega
  have hwrite : b.ppu.busWrite 7 value =
      ({ b.ppu with controls := { b.ppu.controls with
          ioBus := value, v := b.ppu.controls.v.step b.ppu.controls.increment } },
        some ⟨place first, value⟩) := by
    rw [← h.address] at hmemory ⊢
    exact (if_neg hmemory).trans (congrArg (·, some _) (Ppu.advanceAddress_eq h.idle))
  rw [store_writePicture, Bus.writePicture, hwrite]

theorem StreamsFrom.load (h : b.StreamsFrom first)
    (hbelow : first % 0x4000 < Ppu.paletteStart) :
    b.load = (b.ppu.controls.dataBuffer, { b with
      ppu := { b.ppu with controls := { b.ppu.controls with
        ioBus := b.ppu.controls.dataBuffer
        dataBuffer := b.slot.readPpu (place first)
        v := b.ppu.controls.v.step b.ppu.controls.increment } } }) := by
  have hmemory : ¬Ppu.paletteStart ≤ (place first).toNat := by
    rw [Ppu.toNat_place]
    omega
  have hread : b.ppu.readData b.slot.readPpu = (b.ppu.controls.dataBuffer,
      { b.ppu with controls := { b.ppu.controls with
        dataBuffer := b.slot.readPpu (place first)
        v := b.ppu.controls.v.step b.ppu.controls.increment } }) := by
    rw [Ppu.readData, h.address]
    dsimp only
    rw [if_neg hmemory, Ppu.readSpace, Ppu.busAddress_place, if_neg hmemory]
    exact congrArg (Prod.mk _) (Ppu.advanceAddress_eq h.idle)
  rw [load_readData, hread]

/-- What is below the palette on a way is so on the rest of it. -/
theorem below_rest {n increment : Nat}
    (h : ∀ i < n + 1, (first + i * increment) % 0x4000 < Ppu.paletteStart) :
    first % 0x4000 < Ppu.paletteStart ∧
      ∀ i < n, (first + increment + i * increment) % 0x4000 < Ppu.paletteStart := by
  constructor
  · have hfirst := h 0 (Nat.zero_lt_succ n)
    rwa [Nat.zero_mul, Nat.add_zero] at hfirst
  · intro i hi
    have hnext := h (i + 1) (Nat.succ_lt_succ hi)
    rwa [Nat.succ_mul, Nat.add_comm (i * increment), ← Nat.add_assoc] at hnext

/-- A block written through the port goes to its addresses, and the buffer is left. -/
theorem StreamsFrom.storeAll {board : Board} (h : b.StreamsFrom first)
    (hslot : b.slot = .holding board) {bytes : List UInt8}
    (hbelow : ∀ i < bytes.length,
      (first + i * b.ppu.controls.increment) % 0x4000 < Ppu.paletteStart) :
    b.OnlyMoves (b.storeAll bytes) ∧
      (b.storeAll bytes).slot = .holding (board.storeAll
        ((streamPlaces first b.ppu.controls.increment bytes.length).zip bytes)) := by
  induction bytes generalizing b board first with
  | nil => exact ⟨⟨_, _, _, rfl⟩, hslot⟩
  | cons byte rest ih =>
    obtain ⟨hhere, hlater⟩ := below_rest hbelow
    have hwrite := h.store hhere byte
    rw [hslot] at hwrite
    obtain ⟨hmoves, hrest⟩ := ih
      (h.step byte b.ppu.controls.dataBuffer (.holding (board.writePpu (place first) byte))) rfl
      hlater
    change b.OnlyMoves ((b.store byte).storeAll rest) ∧
      ((b.store byte).storeAll rest).slot = _
    rw [hwrite, List.length_cons, streamPlaces_succ, List.zip_cons_cons]
    exact ⟨OnlyMoves.trans ⟨_, _, _, rfl⟩ hmoves, hrest⟩

/-- Reading through the port gives what is in the buffer and then the bytes of the cartridge. -/
theorem StreamsFrom.loadMany (h : b.StreamsFrom first) {n : Nat}
    (hbelow : ∀ i < n + 1, (first + i * b.ppu.controls.increment) % 0x4000 < Ppu.paletteStart) :
    (Bus.loadMany (n + 1) b).1 = b.ppu.controls.dataBuffer ::
      (streamPlaces first b.ppu.controls.increment n).map b.slot.readPpu := by
  induction n generalizing b first with
  | zero =>
    obtain ⟨hhere, -⟩ := below_rest hbelow
    rw [Bus.loadMany, h.load hhere]
    rfl
  | succ n ih =>
    obtain ⟨hhere, hlater⟩ := below_rest hbelow
    have hrest := ih (h.step b.ppu.controls.dataBuffer (b.slot.readPpu (place first)) b.slot) hlater
    rw [Bus.loadMany, h.load hhere, streamPlaces_succ, List.map_cons]
    exact congrArg (b.ppu.controls.dataBuffer :: ·) hrest

end Streams

/-! ## The palette through the port -/

section Palette

variable {b : Bus}

theorem store_palette (h : Ppu.paletteStart ≤ b.ppu.dataAddress.toNat) (value : UInt8) :
    ∃ v, b.store value = { b with ppu := { b.ppu with
      controls := { b.ppu.controls with ioBus := value, v }
      palette := b.ppu.palette.write b.ppu.dataAddress value } } := by
  obtain ⟨v, hadvance⟩ := Ppu.advanceAddress_cases { b.ppu with
    controls := { b.ppu.controls with ioBus := value }
    palette := b.ppu.palette.write b.ppu.dataAddress value }
  have hwrite : b.ppu.busWrite 7 value =
      ({ b.ppu with
        controls := { b.ppu.controls with ioBus := value, v }
        palette := b.ppu.palette.write b.ppu.dataAddress value }, none) :=
    (if_pos h).trans (congrArg (·, none) hadvance)
  rw [store_writePicture, Bus.writePicture, hwrite]
  exact ⟨v, rfl⟩

/-- A read of the palette gives its byte at once. The buffer receives the nametable byte that the
palette hides. -/
theorem load_palette {board : Board} (hslot : b.slot = .holding board)
    (h : Ppu.paletteStart ≤ b.ppu.dataAddress.toNat) :
    b.load.1 =
        b.ppu.palette.read b.ppu.dataAddress ||| (b.ppu.controls.ioBus &&& 0xc0) ∧
      b.load.2.ppu.controls.dataBuffer =
        board.vram.read board.mirroring (b.ppu.dataAddress - 0x1000) := by
  have hplace : b.ppu.dataAddress.toNat < 0x4000 := by
    rw [Ppu.dataAddress_eq, Ppu.toNat_place]
    exact Nat.mod_lt _ (by decide)
  -- the address of the hidden byte is in the nametables, and the chip does not answer it itself
  obtain ⟨hidden, hhidden⟩ : ∃ hidden, hidden = b.ppu.dataAddress - 0x1000 := ⟨_, rfl⟩
  have hnat : hidden.toNat = b.ppu.dataAddress.toNat - 0x1000 := by
    have hbound : (0x1000 : UInt16) ≤ b.ppu.dataAddress := UInt16.le_iff_toNat_le.mpr
      (Nat.le_trans (by decide) h)
    rw [hhidden, UInt16.toNat_sub_of_le _ _ hbound]
    rfl
  have hstart : Ppu.paletteStart = 0x3f00 := rfl
  have hspace : Ppu.busAddress hidden = hidden := by
    apply UInt16.toNat_inj.mp
    rw [Ppu.busAddress, UInt16.toNat_ofNat']
    omega
  have hnametable : Board.isPattern hidden = false := by
    rw [Board.isPattern, decide_eq_false_iff_not]
    omega
  have hread : b.ppu.readSpace b.slot.readPpu hidden = board.vram.read board.mirroring hidden := by
    rw [Ppu.readSpace, hspace, if_neg (by omega), hslot, Slot.readPpu, Board.readPpu, hnametable,
      if_neg Bool.false_ne_true]
  rw [load_readData, Ppu.readData]
  dsimp only
  rw [if_pos h, ← hhidden, hread]
  obtain ⟨v, hadvance⟩ := Ppu.advanceAddress_cases { b.ppu with
    controls := { b.ppu.controls with dataBuffer := board.vram.read board.mirroring hidden } }
  dsimp only
  rw [hadvance]
  exact ⟨rfl, rfl⟩

end Palette

/-! ## The port -/

section Port

variable {b : Bus} {board : Board}

theorem loadMany_storeAll (hslot : b.slot = .holding board)
    (hidle : (b.ppu.controls.rendering && b.ppu.beam.onRenderLine) = false)
    (htoggle : b.ppu.controls.secondWrite = false) {addr : UInt16} {bytes : List UInt8}
    (hbelow : ∀ i < bytes.length + 1,
      (addr.toNat + i * b.ppu.controls.increment) % 0x4000 < Ppu.paletteStart) :
    (loadMany (bytes.length + 1) (((b.setAddress addr).storeAll bytes).setAddress addr)).1 =
      let places := streamPlaces addr.toNat b.ppu.controls.increment bytes.length
      b.ppu.controls.dataBuffer :: places.map (board.storeAll (places.zip bytes)).readPpu := by
  have hset := OnlyMoves.setAddress htoggle addr
  have hbytes : ∀ i < bytes.length,
      (addr.toNat + i * (b.setAddress addr).ppu.controls.increment) % 0x4000 <
        Ppu.paletteStart := by
    rw [hset.increment]
    exact fun i hi ↦ hbelow i (Nat.lt_succ_of_lt hi)
  obtain ⟨hstored, hboard⟩ := (streamsFrom_setAddress hidle htoggle addr).storeAll
    ((slot_setAddress htoggle addr).trans hslot) hbytes
  rw [hset.increment] at hboard
  have hmoves := hset.trans hstored
  have htoggle' := hmoves.secondWrite.trans htoggle
  have hreset := hmoves.trans (OnlyMoves.setAddress htoggle' addr)
  have hload := (streamsFrom_setAddress (hmoves.idle.trans hidle) htoggle' addr).loadMany
    (n := bytes.length) (by rw [hreset.increment]; exact hbelow)
  rw [hreset.increment, hreset.dataBuffer, slot_setAddress htoggle', hboard] at hload
  exact hload

/-- A write to the palette is read at every address of its cell, by any bus that still has the
colours. -/
theorem load_written (hslot : b.slot = .holding board)
    (htoggle : b.ppu.controls.secondWrite = false) {addr : UInt16}
    (haddr : Ppu.paletteStart ≤ addr.toNat % 0x4000) (value : UInt8) {other : UInt16}
    (hother : Ppu.paletteStart ≤ other.toNat % 0x4000) :
    let written := (b.setAddress addr).store value
    ((written.setAddress other).ppu.palette = written.ppu.palette ∧
      (written.setAddress other).slot = .holding board ∧
      (written.setAddress other).ppu.dataAddress = place other.toNat) ∧
    ∀ c : Bus, c.ppu.palette = written.ppu.palette → c.slot = .holding board →
      c.ppu.dataAddress = place other.toNat →
      c.load.1 =
          (if addr.toNat % 32 = other.toNat % 32 ∨
              addr.toNat % 4 = 0 ∧ other.toNat % 4 = 0 ∧ addr.toNat % 16 = other.toNat % 16 then
            value &&& 0x3f
          else b.ppu.palette.read other) ||| (c.ppu.controls.ioBus &&& 0xc0) ∧
        c.load.2.ppu.controls.dataBuffer =
          board.vram.read board.mirroring (place other.toNat - 0x1000) := by
  intro written
  have hset := OnlyMoves.setAddress htoggle addr
  have haddress := dataAddress_setAddress htoggle addr
  obtain ⟨v, hwritten⟩ : ∃ v, written = _ :=
    store_palette (by rw [haddress, Ppu.toNat_place]; exact haddr) value
  have htoggle' : written.ppu.controls.secondWrite = false := by
    rw [hwritten]
    exact hset.secondWrite.trans htoggle
  have hslot' : written.slot = .holding board := by
    rw [hwritten]
    exact (slot_setAddress htoggle addr).trans hslot
  have hpalette : written.ppu.palette = b.ppu.palette.write (place addr.toNat) value := by
    rw [hwritten, ← haddress, ← hset.palette]
  refine ⟨⟨(OnlyMoves.setAddress htoggle' other).palette,
    (slot_setAddress htoggle' other).trans hslot', dataAddress_setAddress htoggle' other⟩, ?_⟩
  intro c hc hcSlot hcAddress
  obtain ⟨hvalue, hbuffer⟩ := load_palette hcSlot
    (by rw [hcAddress, Ppu.toNat_place]; exact hother)
  have hcell : Palette.cell (place other.toNat).toNat = Palette.cell (place addr.toNat).toNat ↔
      addr.toNat % 32 = other.toNat % 32 ∨
        addr.toNat % 4 = 0 ∧ other.toNat % 4 = 0 ∧ addr.toNat % 16 = other.toNat % 16 := by
    rw [Ppu.toNat_place, Ppu.toNat_place, Palette.cell_eq_cell_iff]
    omega
  rw [hvalue, hbuffer, hc, hcAddress, hpalette, Palette.read_write, Palette.read_place]
  exact ⟨congrArg (· ||| (c.ppu.controls.ioBus &&& 0xc0)) (if_congr hcell rfl rfl), rfl⟩

/-- **The data port is a memory.** Let no picture be fetched, and let the cartridge have pattern
memory that can be written.

Setting an address, writing a block, setting the address again and reading once more than the block
is long gives what was in the buffer, and then for each address the last byte of the block that has
gone to its cell: the block itself if the cells are distinct. Here the addresses go up by the
increment around the bus, and none of them is in the palette.

A byte written in the palette is read at once, less its upper two bits, at every address of its
cell, and all other addresses have their old byte. This holds of every bus `c` that has come there
with the same colours, as by setting the address. The upper two bits read are those on the bus of
`c`, and the buffer is left with the nametable byte that the palette hides. -/
theorem data_port_faithful (hslot : b.slot = .holding board)
    (hram : board.patterns.writable = true)
    (hidle : (b.ppu.controls.rendering && b.ppu.beam.onRenderLine) = false)
    (htoggle : b.ppu.controls.secondWrite = false) :
    (∀ (addr : UInt16) (bytes : List UInt8),
      (∀ i ≤ bytes.length,
        (addr.toNat + i * b.ppu.controls.increment) % 0x4000 < Ppu.paletteStart) →
      let places := streamPlaces addr.toNat b.ppu.controls.increment bytes.length
      let written := (b.setAddress addr).storeAll bytes
      ∃ loaded,
        (loadMany (bytes.length + 1) (written.setAddress addr)).1 =
            b.ppu.controls.dataBuffer :: loaded ∧
          loaded.map some = places.map (board.lastByte? (places.zip bytes)) ∧
          ((places.map board.cellOf).Nodup → loaded = bytes)) ∧
    ∀ (addr : UInt16) (value : UInt8), Ppu.paletteStart ≤ addr.toNat % 0x4000 →
      let written := (b.setAddress addr).store value
      ∀ other : UInt16, Ppu.paletteStart ≤ other.toNat % 0x4000 →
        ((written.setAddress other).ppu.palette = written.ppu.palette ∧
          (written.setAddress other).slot = .holding board ∧
          (written.setAddress other).ppu.dataAddress = place other.toNat) ∧
        ∀ c : Bus, c.ppu.palette = written.ppu.palette → c.slot = .holding board →
          c.ppu.dataAddress = place other.toNat →
          c.load.1 =
              (if addr.toNat % 32 = other.toNat % 32 ∨
                  addr.toNat % 4 = 0 ∧ other.toNat % 4 = 0 ∧
                    addr.toNat % 16 = other.toNat % 16 then value &&& 0x3f
                else b.ppu.palette.read other) ||| (c.ppu.controls.ioBus &&& 0xc0) ∧
            c.load.2.ppu.controls.dataBuffer =
              board.vram.read board.mirroring (place other.toNat - 0x1000) := by
  constructor
  · intro addr bytes hbelow places written
    have hlength : places.length = bytes.length := length_streamPlaces _ _ _
    exact ⟨places.map (board.storeAll (places.zip bytes)).readPpu,
      loadMany_storeAll hslot hidle htoggle fun i hi ↦ hbelow i (Nat.le_of_lt_succ hi),
      Board.readPpu_block hram hlength, Board.readPpu_block_of_nodup hram hlength⟩
  · intro addr value haddr written other hother
    exact load_written hslot htoggle haddr value hother

/-- A console at power-on, whose cartridge has pattern memory that can be written. -/
def withPatternRam : Bus := powerOn .ntsc (.holding (.assemble .nrom #[] #[] .vertical false))

/-- Three bytes come back from a nametable, and a colour through its other address. -/
theorem data_port_faithful_withPatternRam :
    (loadMany 4 (((withPatternRam.setAddress 0x2000).storeAll [0x11, 0x22, 0x33]).setAddress
        0x2000)).1 = [0, 0x11, 0x22, 0x33] ∧
      (((withPatternRam.setAddress 0x3f10).store 0x7f).setAddress 0x3f00).load.1 = 0x3f := by
  obtain ⟨hmemory, hpalette⟩ := data_port_faithful (b := withPatternRam) rfl rfl rfl rfl
  constructor
  · obtain ⟨loaded, hloaded, -, hdistinct⟩ := hmemory 0x2000 [0x11, 0x22, 0x33] (by decide)
    rw [hdistinct (by decide)] at hloaded
    exact hloaded
  · obtain ⟨⟨hcolours, hslot, haddress⟩, hread⟩ :=
      hpalette 0x3f10 0x7f (by decide) 0x3f00 (by decide)
    rw [(hread _ hcolours hslot haddress).1]
    decide

end Port

end Bus

end Famicom
