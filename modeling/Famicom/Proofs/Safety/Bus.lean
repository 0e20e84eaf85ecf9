import Famicom.Proofs.Bus.Effects
import Famicom.Proofs.Safety.Picture
import Famicom.Proofs.Safety.Sound

/-!
# The bus does not crash

The checks of an access by the processor are those of the place where it lands. What they rest on is
kept by every access, and comes in two parts. The first holds of every bus that a console can have
(`Bus.IsWhole`): the slot is safe, so that no read misses the cartridge, and both chips are built
for one standard. The second is about the arithmetic of the chips (`Bus.IsSafe`), and holds as long
as the sample rate is not above the frequency of the processor.

Both are proved from the two lemmas that say what an access can leave, `Bus.read_frame` and
`Bus.write_frame`.
-/

namespace Famicom

open Check

/-! ## Controllers -/

namespace Pad

/-- The checks of a read. -/
def readChecks (p : Pad) : List Check :=
  if p.strobe then [] else if 8 ≤ p.reads then [] else [.fits .w8 (p.reads + 1)]

theorem allPass_readChecks (p : Pad) : AllPass p.readChecks := by
  refine allPass_ite.mpr ⟨fun _ ↦ allPass_nil, fun _ ↦ allPass_unless fun hreads ↦ ?_⟩
  refine allPass_singleton.mpr ?_
  rw [passes_fits, Width.limit]
  omega

end Pad

/-! ## The sound chip on the bus -/

namespace SampleQueue

variable {α : Type}

theorem capacity_push (q : SampleQueue α) (sample : α) : (q.push sample).capacity = q.capacity := by
  obtain ⟨capacity, front, back, size, h⟩ := q
  rw [push]
  split
  · cases front <;> rfl
  · rfl

end SampleQueue

namespace Apu

theorem television_clock (a : Apu) : a.clock.television = a.television := by
  obtain ⟨pulse1, pulse2, triangle, noise, happly⟩ :=
    apply_cases { a with sequencer := a.sequencer.clock.2 } a.sequencer.clock.1
  unfold clock sample clockTimers clockSequencer
  dsimp only
  rw [happly]
  split <;> rfl

theorem capacity_clock (a : Apu) : a.clock.samples.capacity = a.samples.capacity := by
  obtain ⟨pulse1, pulse2, triangle, noise, happly⟩ :=
    apply_cases { a with sequencer := a.sequencer.clock.2 } a.sequencer.clock.1
  unfold clock sample clockTimers clockSequencer
  dsimp only
  rw [happly]
  split
  · exact SampleQueue.capacity_push _ _
  · rfl

theorem television_write (a : Apu) (addr : UInt16) (value : UInt8) :
    (a.write addr value).television = a.television ∧
      (a.write addr value).samples = a.samples := by
  obtain ⟨pulse1, pulse2, triangle, noise, delta, hwrite⟩ := a.write_cases addr value
  rw [hwrite]
  exact ⟨rfl, rfl⟩

/-- Samples that are read leave the queue, and nothing else changes. -/
theorem readSamples_eq_ok {a : Apu} {dest : List Sample} {count : Nat}
    {read : List Sample × Apu} (h : a.readSamples dest count = .ok read) :
    ∃ samples, read.2 = { a with samples } ∧ samples.capacity = a.samples.capacity := by
  unfold readSamples SampleQueue.readInto at h
  split at h
  · cases h
  split at h
  · cases h
  cases h
  exact ⟨_, rfl, rfl⟩

end Apu

namespace Bus

/-! ## What an access leaves -/

variable {b : Bus}

/-- A read leaves the controls and the vertical blank of the picture chip, the interrupt flag of the
sound chip with its line, and the controllers. With a safe slot it misses nothing. -/
theorem read_frame (h : b.slot.IsSafe) (addr : UInt16) :
    ∃ controls vblank apu pads lines,
      (b.read addr).2 =
          { b with ppu := { b.ppu with controls, vblank }, apu, pads, lines } ∧
        (apu = b.apu ∨ apu = b.apu.readStatus.2) := by
  unfold read
  split
  case h_1 => exact ⟨_, _, _, _, _, rfl, Or.inl rfl⟩
  case h_2 index _ =>
    obtain ⟨controls, vblank, hread, -⟩ := b.ppu.busRead_cases b.slot.readPpu index
    refine ⟨controls, vblank, b.apu, b.pads, b.lines, ?_, Or.inl rfl⟩
    rw [← hread]
    rfl
  case h_3 =>
    unfold readIo
    split
    · exact ⟨_, _, _, _, _, rfl, Or.inr rfl⟩
    · exact ⟨_, _, _, _, _, rfl, Or.inl rfl⟩
    · exact ⟨_, _, _, _, _, rfl, Or.inl rfl⟩
    · exact ⟨_, _, _, _, _, rfl, Or.inl rfl⟩
  case h_4 => exact ⟨_, _, _, _, _, rfl, Or.inl rfl⟩
  case h_5 place _ =>
    obtain ⟨value, hvalue⟩ := h.exists_readCpu? place
    rw [hvalue]
    exact ⟨_, _, _, _, _, rfl, Or.inl rfl⟩

/-- A write leaves memory, the controllers, a sprite transfer that is asked for, and what the
registers and the cartridge make of it. -/
theorem write_frame (h : b.slot.IsSafe) (addr : UInt16) (value : UInt8) :
    ∃ ram testBlock pads transferPage controls palette oam apu lines slot,
      b.write addr value =
          { b with
            ram, testBlock, pads, transferPage, apu, lines, slot
            ppu := { b.ppu with controls, palette, sprites := { b.ppu.sprites with oam } } } ∧
        slot.IsSafe ∧ (apu = b.apu ∨ ∃ register, apu = b.apu.write register value) := by
  unfold write
  split
  case h_1 => exact ⟨_, _, _, _, _, _, _, _, _, _, rfl, h, Or.inl rfl⟩
  case h_2 index _ =>
    obtain ⟨controls, palette, oam, hwrite, -⟩ := b.ppu.busWrite_cases index value
    unfold writePicture
    dsimp only
    rw [hwrite]
    split
    · exact ⟨_, _, _, _, _, _, _, _, _, _, rfl, h, Or.inl rfl⟩
    · exact ⟨_, _, _, _, _, _, _, _, _, _, rfl, h.writePpu _ _, Or.inl rfl⟩
  case h_3 =>
    unfold writeIo
    split
    · exact ⟨_, _, _, _, _, _, _, _, _, _, rfl, h, Or.inl rfl⟩
    · exact ⟨_, _, _, _, _, _, _, _, _, _, rfl, h, Or.inl rfl⟩
    · exact ⟨_, _, _, _, _, _, _, _, _, _, rfl, h, Or.inr ⟨_, rfl⟩⟩
  case h_4 => exact ⟨_, _, _, _, _, _, _, _, _, _, rfl, h, Or.inl rfl⟩
  case h_5 => exact ⟨_, _, _, _, _, _, _, _, _, _, rfl, h.writeCpu _ _, Or.inl rfl⟩

/-! ## What every bus keeps -/

/-- The slot is safe and nothing has missed it, the chips are built for one standard, and the
samples wait in a queue of the usual size. -/
structure IsWhole (b : Bus) : Prop where
  slot : b.slot.IsSafe
  television : b.apu.television = b.ppu.beam.television
  capacity : b.apu.samples.capacity = SampleQueue.defaultCapacity
  fault : b.fault = false

namespace IsWhole

theorem withPads (h : b.IsWhole) (pads : Vector Pad 2) : IsWhole { b with pads } :=
  ⟨h.slot, h.television, h.capacity, h.fault⟩

theorem withLines (h : b.IsWhole) (lines : Lines) : IsWhole { b with lines } :=
  ⟨h.slot, h.television, h.capacity, h.fault⟩

theorem withTransferPage (h : b.IsWhole) (transferPage : Option UInt8) :
    IsWhole { b with transferPage } := ⟨h.slot, h.television, h.capacity, h.fault⟩

theorem withSlot (h : b.IsWhole) {slot : Slot} (hslot : slot.IsSafe) : IsWhole { b with slot } :=
  ⟨hslot, h.television, h.capacity, h.fault⟩

theorem withApu (h : b.IsWhole) {apu : Apu} (htelevision : apu.television = b.apu.television)
    (hcapacity : apu.samples.capacity = b.apu.samples.capacity) : IsWhole { b with apu } :=
  ⟨h.slot, htelevision.trans h.television, hcapacity.trans h.capacity, h.fault⟩

theorem read (h : b.IsWhole) (addr : UInt16) : (b.read addr).2.IsWhole := by
  obtain ⟨controls, vblank, apu, pads, lines, hread, rfl | rfl⟩ := read_frame h.slot addr
  all_goals
    rw [hread]
    exact ⟨h.slot, h.television, h.capacity, h.fault⟩

theorem write (h : b.IsWhole) (addr : UInt16) (value : UInt8) : (b.write addr value).IsWhole := by
  obtain ⟨ram, testBlock, pads, transferPage, controls, palette, oam, apu, lines, slot, hwrite,
    hslot, rfl | ⟨register, rfl⟩⟩ := write_frame h.slot addr value
  · rw [hwrite]
    exact ⟨hslot, h.television, h.capacity, h.fault⟩
  · obtain ⟨htelevision, hsamples⟩ := b.apu.television_write register value
    rw [hwrite]
    refine ⟨hslot, htelevision.trans h.television, ?_, h.fault⟩
    dsimp only
    rw [hsamples]
    exact h.capacity

theorem clockPicture (h : b.IsWhole) : b.clockPicture.2.IsWhole := by
  obtain ⟨⟨v, hit, overflow, selected, latch, shifters, frame, htick⟩, -, -⟩ :=
    b.ppu.tick_eq b.slot.readPpu
  refine ⟨h.slot, ?_, h.capacity, h.fault⟩
  change b.apu.television = (b.ppu.tick b.slot.readPpu).ppu.beam.television
  rw [htick]
  exact h.television.trans (Beam.television_advance _ _).symm

theorem clockSound (h : b.IsWhole) : b.clockSound.IsWhole :=
  (h.withApu b.apu.television_clock b.apu.capacity_clock).withLines _

end IsWhole

/-! ## Accesses without a crash -/

/-- The checks of a read in the region of sound chip and controllers. -/
def readIoChecks (b : Bus) (offset : Fin 0x18) : List Check :=
  match offset with
  | 0x16 => b.pads[0].readChecks
  | 0x17 => b.pads[1].readChecks
  | _ => []

/-- The checks of a write in the region of sound chip and controllers. -/
def writeIoChecks (b : Bus) (offset : Fin 0x18) (value : UInt8) : List Check :=
  match offset with
  | 0x14 | 0x16 => []
  | _ => b.apu.writeChecks (0x4000 + UInt16.ofNat offset.val) value

/-- The checks of a read by the processor. -/
def readChecks (b : Bus) (addr : UInt16) : List Check :=
  match Region.ofAddress addr with
  | .ram cell => [.index 0x800 cell]
  | .picture register => b.ppu.busReadChecks b.slot register
  | .io offset => .subtract addr.toNat 0x4000 :: b.readIoChecks offset
  | .testBlock cell => [.subtract addr.toNat 0x4018, .index 8 cell]
  | .cartridge addr => b.slot.readCpuChecks addr

/-- The checks of a write by the processor. -/
def writeChecks (b : Bus) (addr : UInt16) (value : UInt8) : List Check :=
  match Region.ofAddress addr with
  | .ram cell => [.index 0x800 cell]
  | .picture register => b.ppu.busWriteChecks b.slot register
  | .io offset => .subtract addr.toNat 0x4000 :: b.writeIoChecks offset value
  | .testBlock cell => [.subtract addr.toNat 0x4018, .index 8 cell]
  | .cartridge addr => b.slot.writeCpuChecks addr value

/-- The checks of a read of a word. -/
def readWordChecks (b : Bus) (addr : UInt16) : List Check :=
  b.readChecks addr ++ (b.read addr).2.readChecks (addr + 1)

/-- The checks of a read of a word that does not leave the page. -/
def readWordInPageChecks (b : Bus) (addr : UInt16) : List Check :=
  b.readChecks addr ++ (b.read addr).2.readChecks (nextInPage addr)

/-- Nothing that an access, a dot or a cycle computes leaves its register. -/
structure IsSafe (b : Bus) : Prop extends b.IsWhole where
  apu : b.apu.IsSound
  selected : b.ppu.sprites.selected.length ≤ SpriteUnit.perLine
  onFrame : b.ppu.beam.IsOnFrame

theorem ofAddress_eq_io {addr : UInt16} {offset : Fin 0x18}
    (h : Region.ofAddress addr = .io offset) : 0x4000 ≤ addr.toNat := by
  unfold Region.ofAddress at h
  dsimp only at h
  split at h
  · cases h
  split at h
  · cases h
  · omega

theorem ofAddress_eq_testBlock {addr : UInt16} {cell : Fin 8}
    (h : Region.ofAddress addr = .testBlock cell) : 0x4018 ≤ addr.toNat := by
  unfold Region.ofAddress at h
  dsimp only at h
  split at h
  · cases h
  split at h
  · cases h
  split at h
  · cases h
  · omega

namespace IsSafe

theorem withPads (h : b.IsSafe) (pads : Vector Pad 2) : IsSafe { b with pads } :=
  ⟨h.toIsWhole.withPads pads, h.apu, h.selected, h.onFrame⟩

theorem withLines (h : b.IsSafe) (lines : Lines) : IsSafe { b with lines } :=
  ⟨h.toIsWhole.withLines lines, h.apu, h.selected, h.onFrame⟩

theorem withTransferPage (h : b.IsSafe) (transferPage : Option UInt8) :
    IsSafe { b with transferPage } :=
  ⟨h.toIsWhole.withTransferPage transferPage, h.apu, h.selected, h.onFrame⟩

theorem withApu (h : b.IsSafe) {apu : Apu} (hsound : apu.IsSound)
    (htelevision : apu.television = b.apu.television)
    (hcapacity : apu.samples.capacity = b.apu.samples.capacity) : IsSafe { b with apu } :=
  ⟨h.toIsWhole.withApu htelevision hcapacity, hsound, h.selected, h.onFrame⟩

theorem allPass_readChecks (h : b.IsSafe) (addr : UInt16) : AllPass (b.readChecks addr) := by
  unfold readChecks
  split
  case h_1 cell _ => exact allPass_singleton.mpr cell.isLt
  case h_2 index _ => exact b.ppu.allPass_busReadChecks h.slot index
  case h_3 offset hregion =>
    refine allPass_cons.mpr ⟨ofAddress_eq_io hregion, ?_⟩
    unfold readIoChecks
    split
    · exact Pad.allPass_readChecks _
    · exact Pad.allPass_readChecks _
    · exact allPass_nil
  case h_4 cell hregion =>
    exact allPass_cons.mpr ⟨ofAddress_eq_testBlock hregion, allPass_singleton.mpr cell.isLt⟩
  case h_5 => exact h.slot.allPass_readCpuChecks _

theorem allPass_writeChecks (h : b.IsSafe) (addr : UInt16) (value : UInt8) :
    AllPass (b.writeChecks addr value) := by
  unfold writeChecks
  split
  case h_1 cell _ => exact allPass_singleton.mpr cell.isLt
  case h_2 index _ => exact b.ppu.allPass_busWriteChecks h.slot index
  case h_3 offset hregion =>
    refine allPass_cons.mpr ⟨ofAddress_eq_io hregion, ?_⟩
    unfold writeIoChecks
    split
    · exact allPass_nil
    · exact allPass_nil
    · exact h.apu.allPass_writeChecks _ value
  case h_4 cell hregion =>
    exact allPass_cons.mpr ⟨ofAddress_eq_testBlock hregion, allPass_singleton.mpr cell.isLt⟩
  case h_5 => exact h.slot.allPass_writeCpuChecks _ value

theorem read (h : b.IsSafe) (addr : UInt16) : (b.read addr).2.IsSafe := by
  have hwhole := h.toIsWhole.read addr
  obtain ⟨controls, vblank, apu, pads, lines, hread, hapu⟩ := read_frame h.slot addr
  rw [hread] at hwhole ⊢
  refine { hwhole with apu := ?_, selected := h.selected, onFrame := h.onFrame }
  rcases hapu with rfl | rfl
  · exact h.apu
  · exact h.apu.readStatus

theorem write (h : b.IsSafe) (addr : UInt16) (value : UInt8) : (b.write addr value).IsSafe := by
  have hwhole := h.toIsWhole.write addr value
  obtain ⟨ram, testBlock, pads, transferPage, controls, palette, oam, apu, lines, slot, hwrite, -,
    hapu⟩ := write_frame h.slot addr value
  rw [hwrite] at hwhole ⊢
  refine { hwhole with apu := ?_, selected := h.selected, onFrame := h.onFrame }
  rcases hapu with rfl | ⟨register, rfl⟩
  · exact h.apu
  · exact h.apu.write register value

theorem clockPicture (h : b.IsSafe) : b.clockPicture.2.IsSafe := by
  obtain ⟨⟨v, hit, overflow, selected, latch, shifters, frame, htick⟩, -, -⟩ :=
    b.ppu.tick_eq b.slot.readPpu
  refine { h.toIsWhole.clockPicture with apu := h.apu, selected := ?_, onFrame := ?_ }
  · exact b.ppu.length_tick_le b.slot.readPpu h.selected
  · change (b.ppu.tick b.slot.readPpu).ppu.beam.IsOnFrame
    rw [htick]
    exact h.onFrame.advance _

theorem clockSound (h : b.IsSafe) : b.clockSound.IsSafe :=
  (h.withApu h.apu.clock b.apu.television_clock b.apu.capacity_clock).withLines _

theorem allPass_readWordChecks (h : b.IsSafe) (addr : UInt16) :
    AllPass (b.readWordChecks addr) :=
  (h.allPass_readChecks addr).append ((h.read addr).allPass_readChecks _)

theorem allPass_readWordInPageChecks (h : b.IsSafe) (addr : UInt16) :
    AllPass (b.readWordInPageChecks addr) :=
  (h.allPass_readChecks addr).append ((h.read addr).allPass_readChecks _)

end IsSafe

end Bus

end Famicom
