import Famicom.Proofs.Machine.Completion
import Famicom.Proofs.Picture.Dot

/-!
# Copying a page to sprite memory

A program asks for a transfer by writing a page to one register, and the instruction that has done
so starts it in its last cycle. No other cycle finds a page asked for, so no request waits
(`Machine.transferPage_cycle`, `Machine.transfer_cycle_of_requested`).

## The invariant

`Machine.IsCopying o page k m` says how far the transfer that has started in `o` has come after `k`
cycles: a waiting cycle if the count of cycles was odd at the start, and then reads and writes by
turns, so that half of the steps done are bytes copied. The source is read in `o`. A page of memory
or of the cartridge is read without a change to what it holds, and the one register that is written
is that of sprite memory; so the bytes that are still to be copied are those of the start.
-/

namespace Famicom

/-! ## The request -/

namespace Bus

variable (b : Bus)

theorem transferPage_read (addr : UInt16) :
    (b.read addr).2.transferPage = b.transferPage := by
  rcases b.read_cases addr with h | ⟨index, h⟩ | h | ⟨i, h⟩ | h <;> rw [h] <;> rfl

theorem ofAddress_eq_io_iff (addr : UInt16) :
    Region.ofAddress addr = .io 0x14 ↔ addr = 0x4014 := by
  constructor
  · intro h
    have hn : addr.toNat = 0x4014 := by
      simp only [Region.ofAddress] at h
      split at h
      · cases h
      · split at h
        · cases h
        · split at h
          · have hoffset := congrArg Fin.val (Region.io.inj h)
            simp at hoffset
            omega
          · split at h <;> cases h
    exact UInt16.toNat_inj.mp hn
  · rintro rfl
    rfl

/-- One register asks for a transfer, and nothing else does. -/
theorem transferPage_write (addr : UInt16) (value : UInt8) :
    (b.write addr value).transferPage = if addr = 0x4014 then some value else b.transferPage := by
  by_cases haddr : addr = 0x4014
  · subst haddr
    rfl
  · rw [if_neg haddr]
    rw [← ofAddress_eq_io_iff] at haddr
    rw [write]
    cases hregion : Region.ofAddress addr with
    | ram | testBlock | cartridge => rfl
    | picture index =>
      simp only [writePicture]
      split <;> rfl
    | io offset =>
      rw [hregion] at haddr
      simp only [writeIo]
      split
      · exact absurd rfl haddr
      · rfl
      · rfl

end Bus

namespace Machine

variable {m : Machine} {page : UInt8}

/-- The page of the transfer that is asked for by the instruction which the next cycle completes. -/
def requested? (m : Machine) : Option UInt8 :=
  m.completing?.bind fun i ↦ ((m.countCycle.setPhase .fetch).execute i).bus.transferPage

/-- A cycle leaves no transfer asked for. -/
theorem transferPage_cycle (h : m.bus.transferPage = none) : m.cycle.bus.transferPage = none := by
  have hsettled (i : Instruction) : (m.settled i).bus.transferPage = none := by
    obtain ⟨b, -, hbus⟩ := m.bus_settled i
    rw [hbus]
  rcases m.cycle_cases with ⟨-, -, hreads | ⟨value, hwrite⟩⟩ |
    ⟨i, -, ⟨-, -, hcycle⟩ | ⟨-, -, hcycle⟩⟩
  · refine hreads.preserves (P := fun b ↦ b.transferPage = none) ?_ h
    intro b addr hb
    rwa [Bus.transferPage_read]
  · rwa [hwrite, Bus.transferPage_write, if_neg (by decide)]
  · rw [hcycle, bus_setPhase]
    exact hsettled i
  · rw [hcycle]
    cases m.entering? with
    | none => exact hsettled i
    | some interrupt =>
      obtain ⟨ram, fault, hbus⟩ := (m.settled i).bus_enter interrupt
      rw [hbus]
      exact hsettled i

/-- A transfer that is asked for starts in the same cycle, whatever interrupt is entered in it. -/
theorem transfer_cycle_of_requested (h : m.requested? = some page) :
    m.cycle.cpu.transfer = some { page, idle := m.cycle.cpu.cycles % 2 } := by
  obtain ⟨i, hi, hpage⟩ := Option.bind_eq_some_iff.mp h
  obtain ⟨-, hsettled⟩ := cpu_settled (completing?_eq_some.mp hi).1 i
  rw [hpage, Option.map_some] at hsettled
  rw [cycles_cycle]
  by_cases hjam : i.operation = .jam
  · rw [cycle_of_jamming hi hjam, transfer_setPhase, hsettled]
  · rw [cycle_of_entering hi hjam]
    cases m.entering? with
    | none => exact hsettled
    | some interrupt => exact (transfer_enter _ interrupt).trans hsettled

end Machine

/-! ## Plain pages -/

/-- A page of memory or of the cartridge. -/
def IsPlain (page : UInt8) : Prop := page ≤ 0x1f ∨ 0x41 ≤ page

instance (page : UInt8) : Decidable (IsPlain page) := inferInstanceAs (Decidable (_ ∨ _))

theorem IsPlain.ofAddress {page : UInt8} (h : IsPlain page) (low : UInt8) :
    (∃ cell, Region.ofAddress (wordOf low page) = .ram cell) ∨
      Region.ofAddress (wordOf low page) = .cartridge (wordOf low page) := by
  have hlow := low.toNat_lt
  simp only [Region.ofAddress, toNat_wordOf]
  rcases h with h | h
  · have hpage : page.toNat ≤ 0x1f := UInt8.le_iff_toNat_le.mp h
    rw [if_pos (by omega)]
    exact Or.inl ⟨_, rfl⟩
  · have hpage : 0x41 ≤ page.toNat := UInt8.le_iff_toNat_le.mp h
    rw [if_neg (by omega), if_neg (by omega), dif_neg (by omega), if_neg (by omega)]
    exact Or.inr rfl

namespace Bus

/-- The second bus holds the same bytes in memory and in the cartridge. -/
structure SameMemory (b c : Bus) : Prop where
  ram : c.ram = b.ram
  testBlock : c.testBlock = b.testBlock
  slot : c.slot = b.slot

/-- The second bus holds the same bytes in sprite memory too, and the same place to write to. -/
structure SameBytes (b c : Bus) : Prop extends SameMemory b c where
  oam : c.ppu.sprites.oam = b.ppu.sprites.oam
  oamAddress : c.ppu.controls.oamAddress = b.ppu.controls.oamAddress

/-- The byte that a plain page has at a place. -/
def source (b : Bus) (page low : UInt8) : UInt8 := (b.read (wordOf low page)).1

variable {b c : Bus} {page : UInt8}

theorem SameMemory.trans {d : Bus} (hbc : SameMemory b c) (hcd : SameMemory c d) :
    SameMemory b d :=
  ⟨hcd.ram.trans hbc.ram, hcd.testBlock.trans hbc.testBlock, hcd.slot.trans hbc.slot⟩

theorem sameBytes_clockPicture (b : Bus) : SameBytes b b.clockPicture.2 := by
  obtain ⟨⟨v, hit, overflow, selected, latch, shifters, frame, htick⟩, -, -⟩ :=
    b.ppu.tick_eq b.slot.readPpu
  refine ⟨⟨rfl, rfl, rfl⟩, ?_, ?_⟩ <;> simp only [clockPicture, htick]

theorem sameBytes_clockSound (b : Bus) : SameBytes b b.clockSound := ⟨⟨rfl, rfl, rfl⟩, rfl, rfl⟩

/-- A byte of a plain page is one of memory or of the cartridge. -/
theorem source_of_sameMemory (hpage : IsPlain page) (h : SameMemory b c) (low : UInt8) :
    c.source page low = b.source page low := by
  rcases hpage.ofAddress low with ⟨cell, hregion⟩ | hregion
  · simp only [source, read, hregion, h.ram]
  · simp only [source, read, hregion, h.slot]
    cases b.slot.readCpu? (wordOf low page) <;> rfl

theorem sameBytes_read (hpage : IsPlain page) (b : Bus) (low : UInt8) :
    SameBytes b (b.read (wordOf low page)).2 := by
  rcases hpage.ofAddress low with ⟨cell, hregion⟩ | hregion
  · simp only [read, hregion]
    exact ⟨⟨rfl, rfl, rfl⟩, rfl, rfl⟩
  · obtain ⟨fault, hread⟩ := Machine.bus_read_cartridge b hregion
    rw [hread]
    exact ⟨⟨rfl, rfl, rfl⟩, rfl, rfl⟩

end Bus

namespace SpriteUnit

variable (u : SpriteUnit)

theorem byte_congr {u v : SpriteUnit} (h : v.oam = u.oam) (place : UInt8) :
    v.byte place = u.byte place := by
  simp only [byte, h]

theorem byte_write (addr value place : UInt8) :
    (u.write addr value).byte place = if place = addr then value else u.byte place := by
  simp only [byte, write, Vector.getElem_set, UInt8.toNat_inj, eq_comm (a := addr)]

end SpriteUnit

namespace Transfer

/-- The cycles of a transfer that starts when there have been `start` cycles. -/
def duration (start : Nat) : Nat := steps + start % 2

/-- A read comes with an odd count of cycles and a write with an even one. -/
def Action.FallsOn (cycles : Nat) : Action → Prop
  | .wait => True
  | .read _ => cycles % 2 = 1
  | .write _ => cycles % 2 = 0

/-- The transfer of a page as it is `k` cycles after its start. The byte in between a read and a
write is the one that the source had at the start. -/
structure IsAt (t : Transfer) (source : UInt8 → UInt8) (page : UInt8) (start k : Nat) : Prop where
  page : t.page = page
  idle : t.idle = start % 2 - k
  step : t.step = k - start % 2
  data : t.step % 2 = 1 → t.data = source (UInt8.ofNat (t.step / 2))

namespace IsAt

variable {t : Transfer} {source : UInt8 → UInt8} {page : UInt8} {start k : Nat}

/-- A cycle waits, reads, or writes the byte read before it. -/
theorem action_cases (h : t.IsAt source page start k) :
    (t.action = .wait ∧ k < start % 2) ∨
      (t.action = .read t.source ∧ start % 2 ≤ k ∧ (k - start % 2) % 2 = 0) ∨
      (t.action = .write (source (UInt8.ofNat ((k - start % 2) / 2))) ∧ start % 2 ≤ k ∧
        (k - start % 2) % 2 = 1) := by
  rw [action, h.idle]
  by_cases hwait : k < start % 2
  · rw [if_pos (by omega)]
    exact Or.inl ⟨rfl, hwait⟩
  · rw [if_neg (by omega), ← h.step]
    by_cases heven : t.step % 2 = 0
    · rw [if_pos heven]
      exact Or.inr (Or.inl ⟨rfl, Nat.le_of_not_lt hwait, heven⟩)
    · have hodd : t.step % 2 = 1 := Nat.mod_two_ne_zero.mp heven
      rw [if_neg heven, h.data hodd]
      exact Or.inr (Or.inr ⟨rfl, Nat.le_of_not_lt hwait, hodd⟩)

theorem fallsOn (h : t.IsAt source page start k) : t.action.FallsOn (start + k + 1) := by
  rcases h.action_cases with ⟨haction, -⟩ | ⟨haction, hle, heven⟩ | ⟨haction, hle, hodd⟩ <;>
    rw [haction]
  · trivial
  · simp only [Action.FallsOn]
    omega
  · simp only [Action.FallsOn]
    omega

/-- A cycle moves a transfer on, and the last one ends it. -/
theorem next (h : t.IsAt source page start k) (hk : k < duration start) :
    (k + 1 < duration start →
        ∃ u, t.next (source (UInt8.ofNat (t.step / 2))) = some u ∧
          u.IsAt source page start (k + 1)) ∧
      (duration start ≤ k + 1 → t.next (source (UInt8.ofNat (t.step / 2))) = none) := by
  obtain ⟨hpage, hidle, hstep, hdata⟩ := h
  simp only [duration] at hk ⊢
  rw [Transfer.next]
  by_cases hwait : 0 < t.idle
  · rw [if_pos hwait]
    constructor
    · intro _
      refine ⟨_, rfl, hpage, ?_, ?_, hdata⟩ <;> dsimp only <;> omega
    · intro hlast
      simp only [steps] at hlast
      omega
  · rw [if_neg hwait]
    constructor
    · intro hgoes
      rw [if_pos (by omega)]
      refine ⟨_, rfl, hpage, by dsimp only; omega, by dsimp only; omega, ?_⟩
      -- an odd number of steps has been done after a read only
      intro hodd
      dsimp only at hodd ⊢
      rw [if_pos (by omega)]
      congr 2
      omega
    · intro hlast
      exact if_neg (by omega)

end IsAt

end Transfer

namespace Machine

/-- The bytes that have been copied `k` cycles after the start of a transfer. -/
def copied (o : Machine) (k : Nat) : Nat := (k - o.cpu.cycles % 2) / 2

/-- The place of sprite memory that a transfer writes to first. -/
def oamStart (o : Machine) : UInt8 := o.bus.ppu.controls.oamAddress

/-- The machine is `k` cycles after the start of the transfer of a page, with which `o` was left. -/
structure IsCopying (o : Machine) (page : UInt8) (k : Nat) (m : Machine) : Prop where
  memory : o.bus.SameMemory m.bus
  registers : m.cpu.registers = o.cpu.registers
  phase : m.cpu.phase = o.cpu.phase
  cycles : m.cpu.cycles = o.cpu.cycles + k
  oamAddress : m.bus.ppu.controls.oamAddress = o.oamStart + UInt8.ofNat (o.copied k)
  oam : ∀ i : UInt8,
    m.bus.ppu.sprites.byte (o.oamStart + i) =
      if i.toNat < o.copied k then o.bus.source page i
      else o.bus.ppu.sprites.byte (o.oamStart + i)
  going : k < Transfer.duration o.cpu.cycles →
    ∃ t : Transfer, m.cpu.transfer = some t ∧ t.IsAt (o.bus.source page) page o.cpu.cycles k
  ended : Transfer.duration o.cpu.cycles ≤ k → m.cpu.transfer = none

variable {o m : Machine} {page : UInt8} {k : Nat}

/-- With the start of the transfer nothing has been copied. -/
theorem isCopying_start (h : o.cpu.transfer = some { page, idle := o.cpu.cycles % 2 }) :
    IsCopying o page 0 o where
  memory := ⟨rfl, rfl, rfl⟩
  registers := rfl
  phase := rfl
  cycles := rfl
  oamAddress := by simp [oamStart, copied]
  oam := by simp [copied]
  going := by
    intro _
    exact ⟨_, h, rfl, rfl, (Nat.zero_sub _).symm, fun hodd ↦ absurd hodd Nat.zero_ne_one⟩
  ended := by
    intro hle
    simp only [Transfer.duration, Transfer.steps] at hle
    omega

/-- The chips do not interfere. -/
theorem IsCopying.sameBytes {b : Bus} (h : IsCopying o page k m) (hb : m.bus.SameBytes b) :
    IsCopying o page k ⟨m.cpu, b⟩ where
  memory := h.memory.trans hb.toSameMemory
  registers := h.registers
  phase := h.phase
  cycles := h.cycles
  oamAddress := hb.oamAddress.trans h.oamAddress
  oam := fun i ↦ (SpriteUnit.byte_congr hb.oam _).trans (h.oam i)
  going := h.going
  ended := h.ended

theorem copied_of_reading (hread : k < o.cpu.cycles % 2 ∨ (k - o.cpu.cycles % 2) % 2 = 0) :
    o.copied (k + 1) = o.copied k := by
  simp only [copied]
  omega

theorem copied_of_writing (hwrite : o.cpu.cycles % 2 ≤ k) (hodd : (k - o.cpu.cycles % 2) % 2 = 1) :
    o.copied (k + 1) = o.copied k + 1 := by
  simp only [copied]
  omega

theorem copied_duration (o : Machine) : o.copied (Transfer.duration o.cpu.cycles) = 256 := by
  simp only [copied, Transfer.duration, Transfer.steps]
  omega

theorem bus_write_target (b : Bus) (value : UInt8) :
    b.write Transfer.target value =
      { b with
        ppu :=
          { b.ppu with
            sprites := b.ppu.sprites.write b.ppu.controls.oamAddress value
            controls :=
              { b.ppu.controls with
                ioBus := value
                oamAddress := b.ppu.controls.oamAddress + 1 } } } := by
  have hregion : Region.ofAddress Transfer.target = .picture 4 := by decide
  rw [Bus.write, hregion]
  rfl

namespace IsCopying

/-- The action of a cycle is the one that the transfer is at. -/
theorem perform (h : IsCopying o page k m) (hk : k < Transfer.duration o.cpu.cycles)
    (hpage : IsPlain page) {t : Transfer} (ht : t.IsAt (o.bus.source page) page o.cpu.cycles k) :
    o.bus.SameMemory (m.bus.perform t.action) ∧
      (m.bus.perform t.action).ppu.controls.oamAddress =
        o.oamStart + UInt8.ofNat (o.copied (k + 1)) ∧
      ∀ i : UInt8,
        (m.bus.perform t.action).ppu.sprites.byte (o.oamStart + i) =
          if i.toNat < o.copied (k + 1) then o.bus.source page i
          else o.bus.ppu.sprites.byte (o.oamStart + i) := by
  rcases ht.action_cases with ⟨haction, hwait⟩ | ⟨haction, -, heven⟩ | ⟨haction, hle, hodd⟩ <;>
    rw [haction]
  · rw [copied_of_reading (Or.inl hwait)]
    exact ⟨h.memory, h.oamAddress, h.oam⟩
  · have hread := h.sameBytes (Bus.sameBytes_read hpage m.bus (UInt8.ofNat (t.step / 2)))
    rw [copied_of_reading (Or.inr heven), Bus.perform, Transfer.source, ht.page]
    exact ⟨hread.memory, hread.oamAddress, hread.oam⟩
  · have hplace : o.copied k < 256 := by
      simp only [Transfer.duration, Transfer.steps] at hk
      simp only [copied]
      omega
    rw [copied_of_writing hle hodd, Bus.perform, bus_write_target]
    refine ⟨⟨h.memory.ram, h.memory.testBlock, h.memory.slot⟩, ?_, ?_⟩
    · dsimp only
      rw [h.oamAddress, UInt8.ofNat_add, UInt8.add_assoc]
      rfl
    · intro i
      dsimp only
      rw [SpriteUnit.byte_write, h.oamAddress, h.oam]
      simp only [UInt8.add_right_inj]
      by_cases hi : i = UInt8.ofNat (o.copied k)
      · have hnat : i.toNat = o.copied k := by
          rw [hi, UInt8.toNat_ofNat_of_lt' hplace]
        rw [if_pos hi, if_pos (by omega), hi]
        rfl
      · have hnat : i.toNat ≠ o.copied k := by
          intro heq
          exact hi (by rw [← heq, UInt8.ofNat_toNat])
        rw [if_neg hi]
        congr 1
        simp only [eq_iff_iff]
        omega

/-- What a cycle of a transfer does, and that it is such a cycle. -/
theorem cycle_eq (h : IsCopying o page k m) (hk : k < Transfer.duration o.cpu.cycles) :
    ∃ t : Transfer, m.cpu.transfer = some t ∧ t.IsAt (o.bus.source page) page o.cpu.cycles k ∧
      m.cycle =
        ⟨{ m.cpu with
            cycles := m.cpu.cycles + 1, transfer := t.next (m.bus.read t.source).1 },
          m.bus.perform t.action⟩ := by
  obtain ⟨t, htransfer, ht⟩ := h.going hk
  refine ⟨t, htransfer, ht, ?_⟩
  rw [cycle_of_transfer htransfer, stepTransfer_eq]
  rfl

/-- A cycle of the processor is a cycle of the transfer. -/
theorem cycle (h : IsCopying o page k m) (hk : k < Transfer.duration o.cpu.cycles)
    (hpage : IsPlain page) : IsCopying o page (k + 1) m.cycle := by
  obtain ⟨t, -, ht, hcycle⟩ := h.cycle_eq hk
  obtain ⟨hmemory, haddress, hoam⟩ := h.perform hk hpage ht
  have hvalue : (m.bus.read t.source).1 = o.bus.source page (UInt8.ofNat (t.step / 2)) := by
    rw [Transfer.source, ht.page]
    exact Bus.source_of_sameMemory hpage h.memory _
  obtain ⟨hgoes, hends⟩ := ht.next hk
  rw [hcycle, hvalue]
  exact ⟨hmemory, h.registers, h.phase, congrArg (· + 1) h.cycles, haddress, hoam, hgoes, hends⟩

end IsCopying

end Machine

end Famicom
