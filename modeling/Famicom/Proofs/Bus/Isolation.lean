import Mathlib.Data.List.DropRight
import Famicom.Proofs.Bus.Controllers

/-!
# Isolation on the bus

Everything on the bus is reached through one address space, and most of what the console does relies
on an access to one place being no matter elsewhere. Three statements say how far that is so
(`Bus.bus_isolated`).

* Memory is memory: a byte of it reads as the last byte written to it, through whichever of its
  addresses, since it was cleared (`Bus.lastWritten`).
* A write changes the parts of the bus that its region names (`Region.parts`) and leaves the others.
  The parts are all of the bus (`Bus.eq_of_keeps`).
* A read changes nothing, outside the few registers that do change when they are read.

The cartridge is two parts. What the processor writes does not reach its patterns and nametables,
and what comes through the data port of the picture chip reaches nothing else of it.

## What carries the proofs

`Bus.keeps_write` goes through the regions once, with a lemma for each. What is said of memory needs
no more of the address space than that: a byte of memory is a part of its own, and the addresses
that share it are those that land in its cell (`Region.sharesByte_iff`). Words are accessed byte by
byte, so the histories here are those of bytes.
-/

namespace Famicom

/-! ## The parts of the bus -/

/-- What of a cartridge only the processor can change. -/
def Slot.processorSide :
    Slot → Option (Array UInt8 × Option (Vector UInt8 workRamSize) × Circuit)
  | .empty => none
  | .holding board => some (board.program, board.workRam, board.circuit)

/-- What of a cartridge only the picture chip can change. -/
def Slot.pictureSide : Slot → Option (PatternMemory × Vram)
  | .empty => none
  | .holding board => some (board.patterns, board.vram)

namespace Slot

theorem eq_of_sides {s t : Slot} (hprocessor : t.processorSide = s.processorSide)
    (hpicture : t.pictureSide = s.pictureSide) : t = s := by
  cases s with
  | empty =>
    cases t with
    | empty => rfl
    | holding board => exact absurd hprocessor nofun
  | holding board =>
    cases t with
    | empty => exact absurd hprocessor nofun
    | holding other =>
      obtain ⟨program, patterns, vram, workRam, circuit⟩ := board
      obtain ⟨program', patterns', vram', workRam', circuit'⟩ := other
      obtain ⟨rfl, hrest⟩ := Prod.mk.inj (Option.some.inj hprocessor)
      obtain ⟨rfl, rfl⟩ := Prod.mk.inj hrest
      obtain ⟨rfl, rfl⟩ := Prod.mk.inj (Option.some.inj hpicture)
      rfl

theorem processorSide_writePpu (s : Slot) (addr : UInt16) (value : UInt8) :
    (s.writePpu addr value).processorSide = s.processorSide := by
  cases s with
  | empty => rfl
  | holding board =>
    dsimp only [writePpu, Board.writePpu]
    split <;> rfl

theorem pictureSide_writeCpu (s : Slot) (addr : UInt16) (value : UInt8) :
    (s.writeCpu addr value).pictureSide = s.pictureSide := by
  cases s with
  | empty => rfl
  | holding board =>
    dsimp only [writeCpu, Board.writeCpu]
    split
    · rfl
    · split
      · rfl
      · rfl

end Slot

/-- The buttons held and the rest are all of a controller. -/
theorem Pad.eq_of_held {p q : Pad} (hrest : { q with held := 0 } = { p with held := 0 })
    (hheld : q.held = p.held) : q = p := by
  obtain ⟨strobe, held, copied, reads⟩ := p
  obtain ⟨strobe', held', copied', reads'⟩ := q
  obtain ⟨rfl, -, rfl, rfl⟩ := Pad.mk.inj hrest
  obtain rfl : held' = held := hheld
  rfl

/-- No register but the data port passes a byte on to the cartridge. -/
theorem Ppu.busWrite_snd {p : Ppu} {index : Fin 8} (h : index.val ≠ 7) (value : UInt8) :
    (p.busWrite index value).2 = none := by
  unfold busWrite
  split
  case h_8 => exact absurd rfl h
  all_goals rfl

namespace Bus

/-- The parts of the bus. -/
inductive Part where
  | ram (cell : Fin 0x800)
  | testBlock (cell : Fin 8)
  | picture
  | sound
  | nmi
  | irq
  /-- The strobe of a controller, with the copy of the buttons that follows it. -/
  | strobe (i : Fin 2)
  /-- The buttons held on a controller. -/
  | buttons (i : Fin 2)
  | transferPage
  /-- What of the cartridge the processor can change. -/
  | processorSide
  /-- What of the cartridge the picture chip can change. -/
  | pictureSide
  | fault
  deriving DecidableEq

/-- The second bus has the same part as the first. -/
def Keeps (b c : Bus) : Part → Prop
  | .ram cell => c.ram.get cell = b.ram.get cell
  | .testBlock cell => c.testBlock.get cell = b.testBlock.get cell
  | .picture => c.ppu = b.ppu
  | .sound => c.apu = b.apu
  | .nmi => c.lines.nmi = b.lines.nmi
  | .irq => c.lines.irq = b.lines.irq
  | .strobe i => { c.pads.get i with held := 0 } = { b.pads.get i with held := 0 }
  | .buttons i => (c.pads.get i).held = (b.pads.get i).held
  | .transferPage => c.transferPage = b.transferPage
  | .processorSide => c.slot.processorSide = b.slot.processorSide
  | .pictureSide => c.slot.pictureSide = b.slot.pictureSide
  | .fault => c.fault = b.fault

/-- The parts are all there is. -/
theorem eq_of_keeps {b c : Bus} (h : ∀ part, b.Keeps c part) : c = b := by
  have hram : c.ram = b.ram := Vector.ext fun i hi ↦ h (.ram ⟨i, hi⟩)
  have htest : c.testBlock = b.testBlock := Vector.ext fun i hi ↦ h (.testBlock ⟨i, hi⟩)
  have hpads : c.pads = b.pads := Vector.ext fun i hi ↦
    Pad.eq_of_held (h (.strobe ⟨i, hi⟩)) (h (.buttons ⟨i, hi⟩))
  have hslot : c.slot = b.slot := Slot.eq_of_sides (h .processorSide) (h .pictureSide)
  obtain ⟨ram, testBlock, ppu, apu, slot, pads, ⟨nmi, irq⟩, transferPage, fault⟩ := b
  obtain ⟨ram', testBlock', ppu', apu', slot', pads', ⟨nmi', irq'⟩, transferPage', fault'⟩ := c
  obtain rfl : ram' = ram := hram
  obtain rfl : testBlock' = testBlock := htest
  obtain rfl : ppu' = ppu := h .picture
  obtain rfl : apu' = apu := h .sound
  obtain rfl : slot' = slot := hslot
  obtain rfl : pads' = pads := hpads
  obtain rfl : nmi' = nmi := h .nmi
  obtain rfl : irq' = irq := h .irq
  obtain rfl : transferPage' = transferPage := h .transferPage
  obtain rfl : fault' = fault := h .fault
  rfl

end Bus

/-- The parts that a write to a region can change. -/
def Region.parts : Region → List Bus.Part
  | .ram cell => [.ram cell]
  | .picture index => if index.val = 7 then [.picture, .pictureSide] else [.picture]
  | .io offset =>
    if offset.val = 0x14 then [.transferPage]
    else if offset.val = 0x16 then (List.finRange 2).map .strobe
    else if offset.val = 0x17 then [.sound, .irq]
    else [.sound]
  | .testBlock cell => [.testBlock cell]
  | .cartridge _ => [.processorSide]

namespace Bus

variable {b : Bus} {part : Part}

theorem keeps_ram (cell : Fin 0x800) (value : UInt8) (h : part ≠ .ram cell) :
    b.Keeps { b with ram := b.ram.set cell.val value cell.isLt } part := by
  cases part with
  | ram other =>
    have hcell : cell.val ≠ other.val := fun hsame ↦ h (congrArg Part.ram (Fin.ext hsame.symm))
    exact Vector.getElem_set_ne cell.isLt other.isLt hcell
  | _ => rfl

theorem keeps_testBlock (cell : Fin 8) (value : UInt8) (h : part ≠ .testBlock cell) :
    b.Keeps { b with testBlock := b.testBlock.set cell.val value cell.isLt } part := by
  cases part with
  | testBlock other =>
    have hcell : cell.val ≠ other.val :=
      fun hsame ↦ h (congrArg Part.testBlock (Fin.ext hsame.symm))
    exact Vector.getElem_set_ne cell.isLt other.isLt hcell
  | _ => rfl

theorem writePicture_eq (b : Bus) (index : Fin 8) (value : UInt8) :
    b.writePicture index value = { b with
      ppu := (b.ppu.busWrite index value).1
      slot := (b.ppu.busWrite index value).2.elim b.slot
        fun passed ↦ b.slot.writePpu passed.addr passed.value } := by
  rw [writePicture]
  rcases b.ppu.busWrite index value with ⟨ppu, _ | passed⟩
  · rfl
  · rfl

theorem keeps_writePicture (index : Fin 8) (value : UInt8)
    (h : part ∉ (Region.picture index).parts) : b.Keeps (b.writePicture index value) part := by
  rw [Region.parts] at h
  rw [writePicture_eq]
  cases part with
  | picture =>
    refine absurd ?_ h
    split <;> exact List.mem_cons_self
  | processorSide =>
    dsimp only [Keeps]
    cases (b.ppu.busWrite index value).2 with
    | none => rfl
    | some passed => exact b.slot.processorSide_writePpu passed.addr passed.value
  | pictureSide =>
    have hindex : index.val ≠ 7 := fun hdata ↦
      h (by rw [if_pos hdata]; exact List.mem_cons_of_mem _ List.mem_cons_self)
    rw [Ppu.busWrite_snd hindex]
    rfl
  | _ => rfl

theorem keeps_writeStrobe (value : UInt8) (h : part ∉ (List.finRange 2).map .strobe) :
    b.Keeps (b.writeStrobe value) part := by
  cases part with
  | strobe i =>
    exact absurd (List.mem_map_of_mem (List.mem_finRange i)) h
  | buttons i =>
    have hpad : (b.writeStrobe value).pads.get i = (b.pads.get i).writeStrobe value :=
      Vector.getElem_map ..
    exact (congrArg Pad.held hpad).trans Pad.held_follow
  | _ => rfl

theorem keeps_writeSound (addr : UInt16) (value : UInt8) (hsound : part ≠ .sound)
    (hirq : addr = 0x4017 → part ≠ .irq) : b.Keeps (b.writeSound addr value) part := by
  cases part with
  | sound => exact absurd rfl hsound
  | nmi =>
    dsimp only [Keeps, writeSound]
    split <;> rfl
  | irq =>
    have haddr : (addr == 0x4017) = false := beq_false_of_ne fun h ↦ hirq h rfl
    dsimp only [Keeps, writeSound]
    rw [haddr]
    rfl
  | _ => rfl

theorem keeps_writeIo (offset : Fin 0x18) (value : UInt8) (h : part ∉ (Region.io offset).parts) :
    b.Keeps (b.writeIo offset value) part := by
  rw [Region.parts] at h
  unfold writeIo
  split
  · cases part with
    | transferPage => exact absurd List.mem_cons_self h
    | _ => rfl
  · exact keeps_writeStrobe value h
  · next htransfer hstrobe =>
    have htransfer : offset.val ≠ 0x14 := fun hsame ↦ htransfer (Fin.ext hsame)
    have hstrobe : offset.val ≠ 0x16 := fun hsame ↦ hstrobe (Fin.ext hsame)
    rw [if_neg htransfer, if_neg hstrobe] at h
    by_cases hsequencer : offset.val = 0x17
    · rw [if_pos hsequencer] at h
      obtain ⟨hsound, hrest⟩ := List.ne_and_not_mem_of_not_mem_cons h
      exact keeps_writeSound _ value hsound fun _ ↦ List.ne_of_not_mem_cons hrest
    · rw [if_neg hsequencer] at h
      refine keeps_writeSound _ value (List.ne_of_not_mem_cons h) fun haddr ↦ ?_
      have hoffset := congrArg UInt16.toNat haddr
      rw [UInt16.toNat_add, UInt16.toNat_ofNat'] at hoffset
      change (0x4000 + offset.val % 0x10000) % 0x10000 = 0x4017 at hoffset
      omega

theorem keeps_writeCpu (addr : UInt16) (value : UInt8) (h : part ≠ .processorSide) :
    b.Keeps { b with slot := b.slot.writeCpu addr value } part := by
  cases part with
  | processorSide => exact absurd rfl h
  | pictureSide => exact b.slot.pictureSide_writeCpu addr value
  | _ => rfl

/-- A write changes nothing but the parts that its region names. -/
theorem keeps_write {addr : UInt16} (value : UInt8) (h : part ∉ (Region.ofAddress addr).parts) :
    b.Keeps (b.write addr value) part := by
  rw [write]
  cases hregion : Region.ofAddress addr with
  | ram cell => exact keeps_ram cell value (List.ne_of_not_mem_cons (hregion ▸ h))
  | picture index => exact keeps_writePicture index value (hregion ▸ h)
  | io offset => exact keeps_writeIo offset value (hregion ▸ h)
  | testBlock cell => exact keeps_testBlock cell value (List.ne_of_not_mem_cons (hregion ▸ h))
  | cartridge place => exact keeps_writeCpu place value (List.ne_of_not_mem_cons (hregion ▸ h))

/-! ## Memory -/

/-- At an address there is nothing but memory. -/
def isMemory (place : UInt16) : Bool :=
  place.toNat < 0x2000 ∨ 0x4018 ≤ place.toNat ∧ place.toNat < 0x4020

/-- Two addresses are of one byte of memory, which the first 8 KiB show four times. -/
def sharesByte (addr place : UInt16) : Bool :=
  addr = place ∨
    addr.toNat < 0x2000 ∧ place.toNat < 0x2000 ∧ addr.toNat % 0x800 = place.toNat % 0x800

end Bus

namespace Region

open Bus (Part isMemory sharesByte)

/-- The map of the address space. -/
theorem ofAddress_cases (addr : UInt16) :
    (addr.toNat < 0x2000 ∧ ofAddress addr = .ram (Fin.ofNat _ addr.toNat)) ∨
      (addr.toNat < 0x4000 ∧ 0x2000 ≤ addr.toNat ∧ ofAddress addr = .picture (low3 addr.toNat)) ∨
      (addr.toNat < 0x4018 ∧ 0x4000 ≤ addr.toNat ∧ ∃ offset, ofAddress addr = .io offset) ∨
      (addr.toNat < 0x4020 ∧ 0x4018 ≤ addr.toNat ∧
        ofAddress addr = .testBlock (low3 addr.toNat)) ∨
      (0x4020 ≤ addr.toNat ∧ ofAddress addr = .cartridge addr) := by
  unfold ofAddress
  dsimp only
  split
  · next hram => exact Or.inl ⟨hram, rfl⟩
  · next hram =>
    refine Or.inr ?_
    split
    · next hpicture => exact Or.inl ⟨hpicture, Nat.not_lt.mp hram, rfl⟩
    · next hpicture =>
      refine Or.inr ?_
      split
      · next hio => exact Or.inl ⟨hio, Nat.not_lt.mp hpicture, _, rfl⟩
      · next hio =>
        refine Or.inr ?_
        split
        · next htest => exact Or.inl ⟨htest, Nat.not_lt.mp hio, rfl⟩
        · next htest => exact Or.inr ⟨Nat.not_lt.mp htest, rfl⟩

theorem ofAddress_of_lt {addr : UInt16} (h : addr.toNat < 0x2000) :
    ofAddress addr = .ram (Fin.ofNat _ addr.toNat) := by
  rw [ofAddress, if_pos h]

/-- A byte of memory is one cell. -/
theorem ofAddress_of_isMemory {place : UInt16} (h : isMemory place = true) :
    (place.toNat < 0x2000 ∧ ofAddress place = .ram (Fin.ofNat _ place.toNat)) ∨
      (place.toNat < 0x4020 ∧ 0x4018 ≤ place.toNat ∧
        ofAddress place = .testBlock (low3 place.toNat)) := by
  have hplace := of_decide_eq_true h
  rcases ofAddress_cases place with hram | ⟨hhigh, hlow, -⟩ | ⟨hhigh, hlow, -⟩ | htest | ⟨hlow, -⟩
  · exact Or.inl hram
  · omega
  · omega
  · exact Or.inr htest
  · omega

/-- The addresses of one byte of memory are those that land in the same cell. -/
theorem sharesByte_iff {place : UInt16} (h : isMemory place = true) (addr : UInt16) :
    sharesByte addr place = true ↔ ofAddress addr = ofAddress place := by
  rw [sharesByte, decide_eq_true_iff]
  constructor
  · rintro (rfl | ⟨haddr, hplace, hcell⟩)
    · rfl
    · rw [ofAddress_of_lt haddr, ofAddress_of_lt hplace]
      exact congrArg Region.ram (Fin.ext hcell)
  · intro hsame
    rcases ofAddress_of_isMemory h with ⟨hplace, hregion⟩ | ⟨hhigh, hlow, hregion⟩
    · rcases ofAddress_cases addr with ⟨haddr, hother⟩ | ⟨-, -, hother⟩ | ⟨-, -, offset, hother⟩ |
        ⟨-, -, hother⟩ | ⟨-, hother⟩ <;> rw [hregion, hother] at hsame
      · exact Or.inr ⟨haddr, hplace, congrArg Fin.val (Region.ram.inj hsame)⟩
      all_goals exact absurd hsame nofun
    · rcases ofAddress_cases addr with ⟨-, hother⟩ | ⟨-, -, hother⟩ | ⟨-, -, offset, hother⟩ |
        ⟨haddr, hfrom, hother⟩ | ⟨-, hother⟩ <;> rw [hregion, hother] at hsame
      · exact absurd hsame nofun
      · exact absurd hsame nofun
      · exact absurd hsame nofun
      · have hcell : addr.toNat % 8 = place.toNat % 8 :=
          congrArg Fin.val (Region.testBlock.inj hsame)
        exact Or.inl (UInt16.toNat_inj.mp (by omega))
      · exact absurd hsame nofun

/-- A byte of memory is a part of no other region. -/
theorem eq_of_mem_parts {place : UInt16} (h : isMemory place = true) {part : Part}
    (hpart : part ∈ (ofAddress place).parts) {region : Region} (hregion : part ∈ region.parts) :
    region = ofAddress place := by
  rcases ofAddress_of_isMemory h with ⟨-, hplace⟩ | ⟨-, -, hplace⟩
  all_goals
    rw [hplace] at hpart ⊢
    rw [List.mem_singleton.mp hpart] at hregion
    unfold parts at hregion
    repeat' split at hregion
    all_goals
      simp only [List.mem_cons, List.mem_map, List.not_mem_nil, or_false, and_false, exists_false,
        reduceCtorEq, Part.ram.injEq, Part.testBlock.injEq] at hregion
    rw [hregion]

end Region

namespace Bus

variable {b c : Bus} {place : UInt16}

theorem read_of_ram {cell : Fin 0x800} (h : Region.ofAddress place = .ram cell) :
    (b.read place).1 = b.ram.get cell := by
  rw [read, h]
  rfl

theorem read_of_testBlock {cell : Fin 8} (h : Region.ofAddress place = .testBlock cell) :
    (b.read place).1 = b.testBlock.get cell := by
  rw [read, h]
  rfl

/-- A byte of memory is read from its cell. -/
theorem read_of_keeps (h : isMemory place = true)
    (hparts : ∀ part ∈ (Region.ofAddress place).parts, b.Keeps c part) :
    (c.read place).1 = (b.read place).1 := by
  rcases Region.ofAddress_of_isMemory h with ⟨-, hregion⟩ | ⟨-, -, hregion⟩
  · rw [hregion] at hparts
    rw [read_of_ram hregion, read_of_ram hregion]
    exact hparts _ List.mem_cons_self
  · rw [hregion] at hparts
    rw [read_of_testBlock hregion, read_of_testBlock hregion]
    exact hparts _ List.mem_cons_self

/-- What is written to a byte of memory is read from it, through all of its addresses. -/
theorem read_write (h : isMemory place = true) (addr : UInt16) (value : UInt8) :
    ((b.write addr value).read place).1 =
      if sharesByte addr place then value else (b.read place).1 := by
  split
  · next hshared =>
    have hsame := (Region.sharesByte_iff h addr).mp hshared
    rcases Region.ofAddress_of_isMemory h with ⟨-, hregion⟩ | ⟨-, -, hregion⟩
    · rw [read_of_ram hregion, write, hsame, hregion]
      exact Vector.getElem_set_self _
    · rw [read_of_testBlock hregion, write, hsame, hregion]
      exact Vector.getElem_set_self _
  · next hapart =>
    refine read_of_keeps h fun part hpart ↦ keeps_write value fun hwritten ↦ hapart ?_
    exact (Region.sharesByte_iff h addr).mpr (Region.eq_of_mem_parts h hpart hwritten)

/-! ## Memory through a history -/

namespace Step

/-- The step is a power cycle. -/
def isPowerCycle : Step → Bool
  | .reset powerCycle => powerCycle
  | _ => false

/-- What a step writes to a byte of memory. -/
def written? (place : UInt16) : Step → Option UInt8
  | .write addr value => if sharesByte addr place then some value else none
  | _ => none

end Step

/-- The steps since the last power cycle. -/
def sincePowerCycle (history : List Step) : List Step :=
  history.rtakeWhile fun step ↦ !step.isPowerCycle

/-- The last byte written to a byte of memory since the last power cycle, or 0. -/
def lastWritten (place : UInt16) (history : List Step) : UInt8 :=
  (lastOf (Step.written? place) (sincePowerCycle history)).getD 0

theorem lastWritten_concat (place : UInt16) (history : List Step) (step : Step) :
    lastWritten place (history ++ [step]) =
      if step.isPowerCycle then 0 else (step.written? place).getD (lastWritten place history) := by
  rw [lastWritten, lastWritten, sincePowerCycle, List.rtakeWhile_concat]
  cases step.isPowerCycle with
  | true => rfl
  | false =>
    rw [Bool.not_false, if_pos rfl, lastOf_concat, if_neg Bool.false_ne_true]
    cases step.written? place <;> rfl

theorem read_of_memory (h : isMemory place = true) (hram : c.ram = b.ram)
    (htest : c.testBlock = b.testBlock) : (c.read place).1 = (b.read place).1 := by
  rcases Region.ofAddress_of_isMemory h with ⟨-, hregion⟩ | ⟨-, -, hregion⟩
  · rw [read_of_ram hregion, read_of_ram hregion, hram]
  · rw [read_of_testBlock hregion, read_of_testBlock hregion, htest]

theorem read_of_cleared (h : isMemory place = true) (hram : b.ram = Vector.replicate _ 0)
    (htest : b.testBlock = Vector.replicate _ 0) : (b.read place).1 = 0 := by
  rcases Region.ofAddress_of_isMemory h with ⟨-, hregion⟩ | ⟨-, -, hregion⟩
  · rw [read_of_ram hregion, hram]
    exact Vector.getElem_replicate _
  · rw [read_of_testBlock hregion, htest]
    exact Vector.getElem_replicate _

/-- A power cycle clears memory, a write to it is kept, and nothing else touches it. -/
theorem read_act (h : isMemory place = true) (step : Step) :
    ((b.act step).read place).1 =
      if step.isPowerCycle then 0 else (step.written? place).getD (b.read place).1 := by
  cases step with
  | read addr =>
    refine read_of_memory h ?_ ?_
    all_goals
      rcases b.read_cases addr with hread | ⟨index, hread⟩ | hread | ⟨i, hread⟩ | hread <;>
        rw [act, hread] <;> rfl
  | write addr value =>
    rw [act, read_write h, Step.written?]
    split <;> rfl
  | hold i mask | press i button pressed =>
    rw [act, modifyPad?_getD]
    exact read_of_memory h rfl rfl
  | takeTransfer | clockPicture | clockSound => exact read_of_memory h rfl rfl
  | reset powerCycle =>
    cases powerCycle with
    | false => exact read_of_memory h rfl rfl
    | true => exact read_of_cleared h rfl rfl

theorem read_run (tv : Television) (slot : Slot) (h : isMemory place = true)
    (history : List Step) :
    (((powerOn tv slot).run history).read place).1 = lastWritten place history := by
  induction history using List.reverseRecOn with
  | nil => exact read_of_cleared h rfl rfl
  | append_singleton history step ih => rw [run_concat, read_act h, ih, lastWritten_concat]

/-! ## Reads that change nothing -/

/-- With a cartridge that an image can ask for, and with none, no read misses. -/
theorem misses_of_isSafe (h : b.slot.IsSafe) (addr : UInt16) : b.misses addr = false := by
  unfold misses
  split
  · next place _ =>
    obtain ⟨value, hvalue⟩ := h.exists_readCpu? place
    rw [hvalue]
    rfl
  · rfl

theorem IsWhole.act (h : b.IsWhole) (step : Step) : (b.act step).IsWhole := by
  cases step with
  | read addr => exact h.read addr
  | write addr value => exact h.write addr value
  | hold i mask | press i button pressed =>
    rw [Bus.act, modifyPad?_getD]
    exact h.withPads _
  | takeTransfer => exact h.withTransferPage none
  | clockPicture => exact h.clockPicture
  | clockSound => exact h.clockSound
  | reset powerCycle => exact h.restarted powerCycle

theorem IsWhole.run (h : b.IsWhole) (steps : List Step) : (b.run steps).IsWhole := by
  induction steps generalizing b with
  | nil => exact h
  | cons step rest ih => exact ih (h.act step)

/-! ## Isolation -/

/-- Whatever the traffic has been, a byte of memory reads as the last byte written to it through any
of its addresses since the last power cycle, or as 0. A write leaves all parts of the bus but those
that its region names, and the parts are all there is. With any cartridge, and with none, a read of
anything but the registers that change when they are read leaves the bus as it is. -/
theorem bus_isolated (tv : Television) (slot : Slot) :
    (∀ traffic place, isMemory place = true →
        (((powerOn tv slot).exchangeAll traffic).read place).1 =
          lastWritten place (traffic.flatMap Traffic.steps)) ∧
      (∀ (b : Bus) addr value, ∀ part ∉ (Region.ofAddress addr).parts,
        b.Keeps (b.write addr value) part) ∧
      (∀ b c : Bus, (∀ part, b.Keeps c part) → c = b) ∧
      ((slot = .empty ∨ ∃ bytes, Slot.ofBytes bytes = .ok slot) →
        ∀ traffic addr, (Region.ofAddress addr).changesOnRead = false →
          (((powerOn tv slot).exchangeAll traffic).read addr).2 =
            (powerOn tv slot).exchangeAll traffic) := by
  refine ⟨?_, ?_, ?_, ?_⟩
  · intro traffic place hplace
    rw [exchangeAll_eq_run]
    exact read_run tv slot hplace _
  · exact fun b addr value part hpart ↦ keeps_write value hpart
  · exact fun b c hkeeps ↦ eq_of_keeps hkeeps
  · intro hslot traffic addr hquiet
    have hsafe : slot.IsSafe := by
      rcases hslot with rfl | ⟨bytes, hbytes⟩
      · exact trivial
      · exact Slot.isSafe_ofBytes hbytes
    have hwhole : (powerOn tv slot).IsWhole := ⟨hsafe, rfl, rfl, rfl⟩
    rw [exchangeAll_eq_run]
    exact read_eq_self hquiet (misses_of_isSafe (hwhole.run _).slot addr)

/-- A word across the end of memory, read through other addresses. -/
theorem bus_isolated_mirrored :
    (((powerOn .ntsc .empty).exchangeAll [.writeWord 0x07ff 0x1234, .readWord 0x2001]).read
        0x1800).1 = 0x12 ∧
      (powerOn .ntsc .empty).Keeps ((powerOn .ntsc .empty).write 0x0800 0x12) .picture ∧
      ((powerOn .ntsc .empty).read 0x4018).2 = powerOn .ntsc .empty ∧
      (((powerOn .ntsc .empty).exchangeAll []).read 0x2000).2 =
        (powerOn .ntsc .empty).exchangeAll [] := by
  obtain ⟨hmemory, hwrite, hparts, hread⟩ := bus_isolated .ntsc .empty
  refine ⟨?_, ?_, ?_, ?_⟩
  · have hbyte := hmemory [.writeWord 0x07ff 0x1234, .readWord 0x2001] 0x1800 (by decide)
    exact hbyte.trans (by decide)
  · exact hwrite _ 0x0800 0x12 .picture (by decide)
  · exact hparts _ _ fun part ↦ by cases part <;> rfl
  · exact hread (Or.inl rfl) [] 0x2000 (by decide)

end Bus

end Famicom
