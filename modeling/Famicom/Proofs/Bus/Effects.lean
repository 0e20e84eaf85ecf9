import Famicom.Bus

/-!
# What an access changes

Each access of the processor lands in one place and changes that place alone. `Bus.read_cases` and
`Bus.write_cases` list the places once and for all; `Ppu.busRead_cases` and `Ppu.busWrite_cases` do
the same for the registers of the picture chip. Invariants of the bus go through by these cases and
never by the address map itself.

The interrupt lines are the subject of the last section. The unmaskable one is out of the reach of
the processor, and the maskable one moves together with the flag of the sound chip's sequencer
(`holdsIrq_read`, `holdsIrq_write`): whatever clears the flag releases the line.
-/

namespace Famicom

/-! ## The registers of the picture chip -/

namespace Controls

variable (c : Controls)

@[simp] theorem control_advance (fetching : Bool) : (c.advance fetching).control = c.control := by
  unfold advance
  split <;> rfl

@[simp] theorem mask_advance (fetching : Bool) : (c.advance fetching).mask = c.mask := by
  unfold advance
  split <;> rfl

end Controls

namespace Ppu

variable (p : Ppu)

/-- A read changes the controls and may end the vertical blank. It leaves what a program has
switched on or off. -/
theorem busRead_cases (fetch : UInt16 → UInt8) (index : Fin 8) :
    ∃ controls vblank,
      (p.busRead fetch index).2 = { p with controls, vblank } ∧
        controls.control = p.controls.control ∧ controls.mask = p.controls.mask ∧
        (vblank = true → p.vblank = true) := by
  unfold busRead
  split
  · exact ⟨_, _, rfl, rfl, rfl, fun h ↦ Bool.noConfusion h⟩
  · exact ⟨_, _, rfl, rfl, rfl, id⟩
  · unfold readData
    dsimp only
    split
    · exact ⟨_, _, rfl, Controls.control_advance _ _, Controls.mask_advance _ _, id⟩
    · exact ⟨_, _, rfl, Controls.control_advance _ _, Controls.mask_advance _ _, id⟩
  · exact ⟨_, _, rfl, rfl, rfl, id⟩

/-- A write changes the controls, colours and sprite memory. Only register 0 holds the control
byte. -/
theorem busWrite_cases (index : Fin 8) (value : UInt8) :
    ∃ controls palette oam,
      (p.busWrite index value).1 =
          { p with controls, palette, sprites := { p.sprites with oam } } ∧
        (index ≠ 0 → controls.control = p.controls.control) := by
  unfold busWrite
  split
  · exact ⟨_, _, _, rfl, fun h ↦ absurd rfl h⟩
  · exact ⟨_, _, _, rfl, fun _ ↦ rfl⟩
  · exact ⟨_, _, _, rfl, fun _ ↦ rfl⟩
  · exact ⟨_, _, _, rfl, fun _ ↦ rfl⟩
  · exact ⟨_, _, _, rfl, fun _ ↦ rfl⟩
  · exact ⟨_, _, _, rfl, fun _ ↦ by unfold Controls.writeScroll; dsimp only; split <;> rfl⟩
  · exact ⟨_, _, _, rfl, fun _ ↦ by unfold Controls.writeAddress; split <;> rfl⟩
  · unfold writeData
    dsimp only
    split
    · exact ⟨_, _, _, rfl, fun _ ↦ Controls.control_advance _ _⟩
    · exact ⟨_, _, _, rfl, fun _ ↦ Controls.control_advance _ _⟩

end Ppu

/-! ## The sound chip -/

namespace Apu

variable (a : Apu)

/-- What the sequencer asks for is done in the channels. -/
theorem apply_cases (event : FrameEvent) :
    ∃ pulse1 pulse2 triangle noise,
      a.apply event = { a with pulse1, pulse2, triangle, noise } := by
  unfold apply
  dsimp only
  split <;> split <;> exact ⟨_, _, _, _, rfl⟩

theorem eq_sequencerRegister_iff (addr : UInt16) :
    addr = 0x4017 ↔ ¬addr < 0x4000 ∧ addr.toNat - 0x4000 = 0x17 := by
  rw [← UInt16.toNat_inj, UInt16.lt_iff_toNat_lt, show (0x4017 : UInt16).toNat = 0x4017 from rfl,
    show (0x4000 : UInt16).toNat = 0x4000 from rfl]
  omega

/-- A write changes the channels, and only one register the sequencer. -/
theorem write_cases (addr : UInt16) (value : UInt8) :
    ∃ pulse1 pulse2 triangle noise delta,
      a.write addr value =
        { a with
          pulse1, pulse2, triangle, noise, delta
          sequencer :=
            if addr = 0x4017 then (a.sequencer.write value).2 else a.sequencer } := by
  have haddr := eq_sequencerRegister_iff addr
  unfold write
  dsimp only
  by_cases hlow : addr < 0x4000
  · rw [if_pos hlow, if_neg fun h ↦ (haddr.mp h).1 hlow]
    exact ⟨_, _, _, _, _, rfl⟩
  · rw [if_neg hlow]
    by_cases hsequencer : addr.toNat - 0x4000 = 0x17
    · obtain ⟨pulse1, pulse2, triangle, noise, happly⟩ :=
        apply_cases { a with sequencer := (a.sequencer.write value).2 } (a.sequencer.write value).1
      -- the registers of the channels come before that of the sequencer
      have hover (n : Nat) (hn : n ≤ 0x14) : ¬addr.toNat - 0x4000 < n := by omega
      rw [if_pos (haddr.mpr ⟨hlow, hsequencer⟩), if_neg (hover 0x04 (by decide)),
        if_neg (hover 0x08 (by decide)), if_neg (hover 0x0c (by decide)),
        if_neg (hover 0x10 (by decide)), if_neg (hover 0x14 (by decide)), if_neg (by omega),
        if_pos hsequencer, happly]
      exact ⟨_, _, _, _, _, rfl⟩
    · rw [if_neg fun h ↦ hsequencer (haddr.mp h).2, if_neg hsequencer]
      repeat' split
      all_goals exact ⟨_, _, _, _, _, rfl⟩

/-- A cycle of the chip is one of the sequencer. -/
theorem sequencer_clock : a.clock.sequencer = a.sequencer.clock.2 := by
  obtain ⟨pulse1, pulse2, triangle, noise, happly⟩ :=
    apply_cases { a with sequencer := a.sequencer.clock.2 } a.sequencer.clock.1
  unfold clock sample clockTimers clockSequencer
  dsimp only
  rw [happly]
  split <;> rfl

/-- A cycle never takes the interrupt flag back. -/
theorem irqFlag_clock (h : a.irqFlag = true) : a.clock.irqFlag = true := by
  unfold irqFlag at h ⊢
  rw [sequencer_clock]
  unfold Sequencer.clock
  dsimp only
  split
  · exact h
  · rw [h]
    rfl

end Apu

namespace Bus

variable (b : Bus)

/-- The places a read can land in. -/
theorem read_cases (addr : UInt16) :
    (b.read addr).2 = b ∨ (∃ index, (b.read addr).2 = (b.readPicture index).2) ∨
      (b.read addr).2 = b.readSoundStatus.2 ∨ (∃ i, (b.read addr).2 = (b.readPad i).2) ∨
      (b.read addr).2 = { b with fault := true } := by
  unfold read
  split
  · exact Or.inl rfl
  · exact Or.inr (Or.inl ⟨_, rfl⟩)
  · unfold readIo
    split
    · exact Or.inr (Or.inr (Or.inl rfl))
    · exact Or.inr (Or.inr (Or.inr (Or.inl ⟨_, rfl⟩)))
    · exact Or.inr (Or.inr (Or.inr (Or.inl ⟨_, rfl⟩)))
    · exact Or.inl rfl
  · exact Or.inl rfl
  · split
    · exact Or.inl rfl
    · exact Or.inr (Or.inr (Or.inr (Or.inr rfl)))

/-- The places a write can land in. -/
theorem write_cases (addr : UInt16) (value : UInt8) :
    (∃ ram testBlock pads transferPage,
        b.write addr value = { b with ram, testBlock, pads, transferPage }) ∨
      (∃ index, b.write addr value = b.writePicture index value ∧
        Region.ofAddress addr = .picture index) ∨
      (∃ register, b.write addr value = b.writeSound register value) ∨
      (∃ slot, b.write addr value = { b with slot }) := by
  unfold write
  split
  · exact Or.inl ⟨_, _, _, _, rfl⟩
  · exact Or.inr (Or.inl ⟨_, rfl, ‹_›⟩)
  · unfold writeIo
    split
    · exact Or.inl ⟨_, _, _, _, rfl⟩
    · exact Or.inl ⟨_, _, _, _, rfl⟩
    · exact Or.inr (Or.inr (Or.inl ⟨_, rfl⟩))
  · exact Or.inl ⟨_, _, _, _, rfl⟩
  · exact Or.inr (Or.inr (Or.inr ⟨_, rfl⟩))

/-! ## The chips -/

/-- What a read does to the picture chip. -/
theorem ppu_read (addr : UInt16) :
    ∃ controls vblank,
      (b.read addr).2.ppu = { b.ppu with controls, vblank } ∧
        controls.control = b.ppu.controls.control ∧ controls.mask = b.ppu.controls.mask ∧
        (vblank = true → b.ppu.vblank = true) := by
  rcases b.read_cases addr with h | ⟨index, h⟩ | h | ⟨i, h⟩ | h <;> rw [h]
  · exact ⟨_, _, rfl, rfl, rfl, id⟩
  · exact b.ppu.busRead_cases b.slot.readPpu index
  · exact ⟨_, _, rfl, rfl, rfl, id⟩
  · exact ⟨_, _, rfl, rfl, rfl, id⟩
  · exact ⟨_, _, rfl, rfl, rfl, id⟩

/-- What a write does to the picture chip. -/
theorem ppu_write (addr : UInt16) (value : UInt8) :
    ∃ controls palette oam,
      (b.write addr value).ppu =
          { b.ppu with controls, palette, sprites := { b.ppu.sprites with oam } } ∧
        (Region.ofAddress addr ≠ .picture 0 → controls.control = b.ppu.controls.control) := by
  rcases b.write_cases addr value with ⟨_, _, _, _, h⟩ | ⟨index, h, hregion⟩ | ⟨register, h⟩ |
    ⟨slot, h⟩ <;> rw [h]
  · exact ⟨_, _, _, rfl, fun _ ↦ rfl⟩
  · obtain ⟨controls, palette, oam, hwrite, hcontrol⟩ := b.ppu.busWrite_cases index value
    refine ⟨controls, palette, oam, ?_, fun hne ↦ hcontrol ?_⟩
    · rw [← hwrite]
      unfold writePicture
      dsimp only
      split <;> rfl
    · rintro rfl
      exact hne hregion
  · exact ⟨_, _, _, rfl, fun _ ↦ rfl⟩
  · exact ⟨_, _, _, rfl, fun _ ↦ rfl⟩

@[simp] theorem beam_read (addr : UInt16) : (b.read addr).2.ppu.beam = b.ppu.beam := by
  obtain ⟨controls, vblank, h, -⟩ := b.ppu_read addr
  rw [h]

@[simp] theorem beam_write (addr : UInt16) (value : UInt8) :
    (b.write addr value).ppu.beam = b.ppu.beam := by
  obtain ⟨controls, palette, oam, h, -⟩ := b.ppu_write addr value
  rw [h]

@[simp] theorem pacer_read (addr : UInt16) : (b.read addr).2.apu.pacer = b.apu.pacer := by
  rcases b.read_cases addr with h | ⟨index, h⟩ | h | ⟨i, h⟩ | h <;> rw [h] <;> rfl

@[simp] theorem pacer_write (addr : UInt16) (value : UInt8) :
    (b.write addr value).apu.pacer = b.apu.pacer := by
  rcases b.write_cases addr value with ⟨_, _, _, _, h⟩ | ⟨index, h, -⟩ | ⟨register, h⟩ |
    ⟨slot, h⟩ <;> rw [h]
  · unfold writePicture
    dsimp only
    split <;> rfl
  · obtain ⟨pulse1, pulse2, triangle, noise, delta, hwrite⟩ := b.apu.write_cases register value
    unfold writeSound
    dsimp only
    rw [hwrite]

/-! ## The interrupt lines -/

theorem nmi_read (addr : UInt16) : (b.read addr).2.lines.nmi = b.lines.nmi := by
  rcases b.read_cases addr with h | ⟨index, h⟩ | h | ⟨i, h⟩ | h <;> rw [h]
  · rfl
  · unfold readSoundStatus
    dsimp only
    split <;> rfl
  · rfl

theorem nmi_write (addr : UInt16) (value : UInt8) :
    (b.write addr value).lines.nmi = b.lines.nmi := by
  rcases b.write_cases addr value with ⟨_, _, _, _, h⟩ | ⟨index, h, -⟩ | ⟨register, h⟩ |
    ⟨slot, h⟩ <;> rw [h]
  · unfold writePicture
    dsimp only
    split <;> rfl
  · unfold writeSound
    dsimp only
    split <;> rfl

/-- The line of the maskable interrupt is up exactly when the flag of the sequencer is. -/
def HoldsIrq (b : Bus) : Prop := b.lines.irq = b.apu.irqFlag

theorem holdsIrq_read {b : Bus} (h : b.HoldsIrq) (addr : UInt16) : (b.read addr).2.HoldsIrq := by
  rcases b.read_cases addr with hread | ⟨index, hread⟩ | hread | ⟨i, hread⟩ | hread <;> rw [hread]
  · exact h
  · exact h
  · cases hflag : b.apu.irqFlag with
    | false =>
      have hline : b.lines.irq = false := h.trans hflag
      simp only [HoldsIrq, readSoundStatus, hflag, Bool.false_eq_true, if_false, hline]
      rfl
    | true =>
      simp only [HoldsIrq, readSoundStatus, hflag, if_true]
      rfl
  · exact h
  · exact h

theorem holdsIrq_writeSound {b : Bus} (h : b.HoldsIrq) (addr : UInt16) (value : UInt8) :
    (b.writeSound addr value).HoldsIrq := by
  obtain ⟨pulse1, pulse2, triangle, noise, delta, hwrite⟩ := b.apu.write_cases addr value
  have hflag : (b.apu.write addr value).irqFlag =
      if addr = 0x4017 then b.apu.irqFlag && !bit value 6 else b.apu.irqFlag := by
    rw [hwrite]
    unfold Apu.irqFlag
    split <;> rfl
  unfold HoldsIrq at h
  unfold HoldsIrq writeSound
  dsimp only
  by_cases haddr : addr = 0x4017
  · rw [if_pos haddr] at hflag
    -- a write that leaves the flag down releases the line, one that leaves it up found it so
    cases hset : (b.apu.write addr value).irqFlag with
    | false => simp only [haddr, beq_self_eq_true, Bool.not_false, Bool.and_self, if_true]; rfl
    | true =>
      have hwas : b.apu.irqFlag = true := (Bool.and_eq_true_iff.mp (hflag.symm.trans hset)).1
      simp only [haddr, Bool.not_true, Bool.and_false, Bool.false_eq_true, if_false, h, hwas]
  · rw [if_neg haddr] at hflag
    rw [hflag, beq_eq_false_iff_ne.mpr haddr]
    exact h

theorem holdsIrq_write {b : Bus} (h : b.HoldsIrq) (addr : UInt16) (value : UInt8) :
    (b.write addr value).HoldsIrq := by
  rcases b.write_cases addr value with ⟨_, _, _, _, hwrite⟩ | ⟨index, hwrite, -⟩ |
    ⟨register, hwrite⟩ | ⟨slot, hwrite⟩ <;> rw [hwrite]
  · exact h
  · unfold writePicture
    dsimp only
    split <;> exact h
  · exact holdsIrq_writeSound h register value
  · exact h

/-- After a cycle of the sound chip the line follows the flag, even where the processor has taken
the line back before. -/
theorem holdsIrq_clockSound {b : Bus} (h : b.lines.irq = true → b.apu.irqFlag = true) :
    b.clockSound.HoldsIrq := by
  unfold HoldsIrq clockSound
  dsimp only
  cases hflag : b.apu.clock.irqFlag with
  | true => rfl
  | false =>
    cases hline : b.lines.irq with
    | false => exact hline
    | true => exact absurd (Apu.irqFlag_clock _ (h hline)) (by rw [hflag]; exact Bool.false_ne_true)

theorem nmi_clockSound (b : Bus) : b.clockSound.lines.nmi = b.lines.nmi := by
  unfold clockSound
  dsimp only
  split <;> rfl

theorem holdsIrq_clockPicture {b : Bus} (h : b.HoldsIrq) : b.clockPicture.2.HoldsIrq := by
  unfold HoldsIrq clockPicture
  dsimp only
  split <;> exact h

end Bus

end Famicom
