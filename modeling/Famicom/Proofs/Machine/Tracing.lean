import Famicom.Proofs.Bus.Effects
import Famicom.Proofs.Machine.Cycle

/-!
# Where the trace disturbs a program

A line of the trace shows the operand bytes of an instruction, and the trace reads them from the bus
like the instruction itself. Where a read changes nothing that is no matter: the machine runs as it
does without the trace. Some registers do change when they are read, and a program that runs from
them behaves differently when it is traced.

The statements here find out for which addresses that is so. A run with the trace on agrees with the
run without it, cycle by cycle, as long as no operand byte lies in such a register
(`Machine.tracedCycle_eq_cycle`), and for each of these registers there is a machine that the trace
disturbs (`Machine.tracedMany_eq_cycleMany_iff`).

## The status of the sound chip

One register is spared. A read of the sound chip's status releases an interrupt, but the two
addresses before it can only be written and read as `$40`, which is an opcode without an operand. So
no operand byte is ever found there (`Machine.soundStatus_notMem_operandAddresses`).
-/

namespace Famicom

/-! ## Reads that change nothing -/

/-- A read changes what is read: the status and the data registers of the picture chip, the status
of the sound chip, the controllers. -/
def Region.changesOnRead : Region → Bool
  | .picture index => index.val == 2 || index.val == 4 || index.val == 7
  | .io offset => offset.val == 0x15 || offset.val == 0x16 || offset.val == 0x17
  | _ => false

namespace Region

theorem ofAddress_of_picture {addr : UInt16} (hlow : 0x2000 ≤ addr.toNat)
    (hhigh : addr.toNat < 0x4000) : ofAddress addr = .picture (low3 addr.toNat) := by
  unfold ofAddress
  dsimp only
  rw [if_neg (Nat.not_lt.mpr hlow), if_pos hhigh]

theorem ofAddress_eq_picture {addr : UInt16} {index : Fin 8} (h : ofAddress addr = .picture index) :
    0x2000 ≤ addr.toNat ∧ addr.toNat < 0x4000 ∧ index = low3 addr.toNat := by
  unfold ofAddress at h
  dsimp only at h
  split at h
  · exact Region.noConfusion h
  · next hram =>
    split at h
    · next hpicture => exact ⟨Nat.le_of_not_lt hram, hpicture, (Region.picture.inj h).symm⟩
    · split at h
      · exact Region.noConfusion h
      · split at h <;> exact Region.noConfusion h

theorem toNat_of_io {addr : UInt16} {offset : Fin 0x18} (h : ofAddress addr = .io offset) :
    addr.toNat = 0x4000 + offset.val := by
  unfold ofAddress at h
  dsimp only at h
  split at h
  · exact Region.noConfusion h
  · split at h
    · exact Region.noConfusion h
    · next hpicture =>
      split at h
      · have hoffset := congrArg Fin.val (Region.io.inj h)
        dsimp only at hoffset
        omega
      · split at h <;> exact Region.noConfusion h

end Region

namespace Bus

variable {b : Bus} {addr : UInt16}

/-- The cartridge lacks the byte at an address. -/
def misses (b : Bus) (addr : UInt16) : Bool :=
  match Region.ofAddress addr with
  | .cartridge addr => (b.slot.readCpu? addr).isNone
  | _ => false

theorem misses_of_changesOnRead (h : (Region.ofAddress addr).changesOnRead = true) :
    b.misses addr = false := by
  unfold misses
  split
  · next hregion =>
    rw [hregion] at h
    exact absurd h Bool.false_ne_true
  · rfl

theorem slot_read (b : Bus) (addr : UInt16) : (b.read addr).2.slot = b.slot := by
  rcases b.read_cases addr with h | ⟨index, h⟩ | h | ⟨i, h⟩ | h <;> rw [h] <;> rfl

theorem misses_read (b : Bus) (before addr : UInt16) :
    (b.read before).2.misses addr = b.misses addr := by rw [misses, misses, slot_read]

/-- A register of the picture chip that can only be written reads as the last byte on its bus. -/
theorem readPicture_of_quiet {index : Fin 8} (h : (Region.picture index).changesOnRead = false) :
    b.readPicture index = (b.ppu.controls.ioBus, b) := by
  dsimp only [readPicture]
  unfold Ppu.busRead
  split
  · exact absurd h (by decide)
  · exact absurd h (by decide)
  · exact absurd h (by decide)
  · rfl

/-- A read of the sound chip's status with no interrupt to release leaves the bus as it is. -/
theorem readSoundStatus_of_quiet (h : b.apu.irqFlag = false) :
    b.readSoundStatus = (b.apu.statusByte, b) := by
  have hsequencer : b.apu.sequencer.clearIrq = b.apu.sequencer := by
    rw [Sequencer.clearIrq, ← h]
    rfl
  unfold readSoundStatus Apu.readStatus
  rw [h, hsequencer]
  rfl

theorem read_soundStatus (b : Bus) : b.read 0x4015 = b.readSoundStatus := by
  have hregion : Region.ofAddress 0x4015 = .io 0x15 := by decide
  rw [read, hregion]
  rfl

/-- A read of any other region leaves the bus as it is, unless the cartridge lacks the byte. -/
theorem read_eq_self (hquiet : (Region.ofAddress addr).changesOnRead = false)
    (hbyte : b.misses addr = false) : (b.read addr).2 = b := by
  unfold misses at hbyte
  unfold read
  cases hregion : Region.ofAddress addr with
  | ram cell | testBlock cell => rfl
  | picture index =>
    rw [hregion] at hquiet
    exact congrArg Prod.snd (readPicture_of_quiet hquiet)
  | io offset =>
    rw [hregion] at hquiet
    dsimp only [readIo]
    split
    · exact absurd hquiet (by decide)
    · exact absurd hquiet (by decide)
    · exact absurd hquiet (by decide)
    · rfl
  | cartridge addr =>
    rw [hregion] at hbyte
    obtain ⟨value, hvalue⟩ := Option.isSome_iff_exists.mp (Option.isNone_eq_false_iff.mp hbyte)
    simp only [hvalue]

end Bus

namespace Machine

variable {m : Machine}

/-! ## Runs with the trace on -/

/-- Runs `n` processor cycles with the trace on. -/
def tracedMany : Nat → Machine → Machine
  | 0, m => m
  | n + 1, m => tracedMany n m.tracedCycle.2

/-- The addresses that the trace reads in the next cycle: the operand bytes of the instruction that
is about to be fetched. -/
def operandAddresses (m : Machine) : List UInt16 :=
  if m.cpu.atBoundary then
    [m.registers.pc + 1, m.registers.pc + 2].take (Mode.ofOpcode m.fetch.1).operandLength
  else []

/-- The trace reads nothing in the next cycle that a read changes. -/
def IsQuietlyTraced (m : Machine) : Prop :=
  ∀ addr ∈ m.operandAddresses,
    (Region.ofAddress addr).changesOnRead = false ∧ m.bus.misses addr = false

theorem peekOperand_snd (m : Machine) (opcode : UInt8) (pc : UInt16) (place : Nat) :
    (m.peekOperand opcode pc place).2 =
      ⟨m.cpu, if place ≤ (Mode.ofOpcode opcode).operandLength then
        (m.bus.read (pc + UInt16.ofNat place)).2 else m.bus⟩ := by
  unfold peekOperand
  split <;> rfl

theorem operandLength_le (mode : Mode) : mode.operandLength ≤ 2 := by cases mode <;> decide

theorem mem_operandAddresses_iff (h : m.cpu.atBoundary = true) {addr : UInt16} :
    addr ∈ m.operandAddresses ↔
      ∃ place, 1 ≤ place ∧ place ≤ (Mode.ofOpcode m.fetch.1).operandLength ∧
        addr = m.registers.pc + UInt16.ofNat place := by
  have htwo := operandLength_le (Mode.ofOpcode m.fetch.1)
  rw [operandAddresses, if_pos h]
  generalize (Mode.ofOpcode m.fetch.1).operandLength = length at htwo ⊢
  obtain rfl | rfl | rfl : length = 0 ∨ length = 1 ∨ length = 2 := by omega
  · simp only [List.take_zero, List.not_mem_nil, false_iff]
    rintro ⟨place, hleast, hmost, -⟩
    omega
  · simp only [List.take_succ_cons, List.take_zero, List.mem_singleton]
    constructor
    · exact fun haddr ↦ ⟨1, Nat.le_refl _, Nat.le_refl _, haddr⟩
    · rintro ⟨place, hleast, hmost, haddr⟩
      obtain rfl : place = 1 := by omega
      exact haddr
  · simp only [List.take_succ_cons, List.take_zero, List.mem_cons, List.not_mem_nil, or_false]
    constructor
    · rintro (haddr | haddr)
      · exact ⟨1, by decide, by decide, haddr⟩
      · exact ⟨2, by decide, by decide, haddr⟩
    · rintro ⟨place, hleast, hmost, haddr⟩
      obtain rfl | rfl : place = 1 ∨ place = 2 := by omega
      · exact Or.inl haddr
      · exact Or.inr haddr

theorem trace_snd (m : Machine) (opcode : UInt8) (pc : UInt16) :
    (m.trace opcode pc).2 = ((m.peekOperand opcode pc 1).2.peekOperand opcode pc 2).2 := rfl

theorem tracedCycle_of_fetch (h : m.cpu.atBoundary = true) :
    m.tracedCycle.2 =
      (m.countCycle.fetch.2.trace m.countCycle.fetch.1 m.registers.pc).2.start
        m.countCycle.fetch.1 := by rw [tracedCycle, if_pos h]

/-- Where the trace reads nothing that a read changes, a cycle is the same with it and without. -/
theorem tracedCycle_eq_cycle (h : m.IsQuietlyTraced) : m.tracedCycle.2 = m.cycle := by
  cases hboundary : m.cpu.atBoundary with
  | false => rw [tracedCycle, hboundary, if_neg Bool.false_ne_true]
  | true =>
    obtain ⟨hphase, htransfer⟩ := Cpu.atBoundary_iff.mp hboundary
    have hpeek (place : Nat) (hplace : 1 ≤ place) :
        (m.countCycle.fetch.2.peekOperand m.countCycle.fetch.1 m.registers.pc place).2 =
          m.countCycle.fetch.2 := by
      rw [peekOperand_snd]
      split
      · next hlength =>
        obtain ⟨hquiet, hbyte⟩ :=
          h _ ((mem_operandAddresses_iff hboundary).mpr ⟨place, hplace, hlength, rfl⟩)
        have hfetched : m.countCycle.fetch.2.bus.misses (m.registers.pc + UInt16.ofNat place) =
            false := (m.bus.misses_read _ _).trans hbyte
        rw [Bus.read_eq_self hquiet hfetched]
      · rfl
    rw [tracedCycle_of_fetch hboundary, trace_snd, hpeek 1 (Nat.le_refl 1), hpeek 2 (by decide),
      cycle_of_fetch htransfer hphase]

theorem tracedMany_eq_cycleMany {n : Nat} (h : ∀ k < n, (m.cycleMany k).IsQuietlyTraced) :
    m.tracedMany n = m.cycleMany n := by
  induction n generalizing m with
  | zero => rfl
  | succ n ih =>
    have hfirst : m.tracedCycle.2 = m.cycle := tracedCycle_eq_cycle (h 0 (Nat.succ_pos n))
    rw [tracedMany, hfirst, cycleMany_succ]
    exact ih fun k hk ↦ h (k + 1) (Nat.succ_lt_succ hk)

/-! ## Machines that the trace disturbs -/

/-- No operand byte is found at the status of the sound chip. -/
theorem soundStatus_notMem_operandAddresses (m : Machine) : 0x4015 ∉ m.operandAddresses := by
  intro hmem
  cases hboundary : m.cpu.atBoundary with
  | false =>
    rw [operandAddresses, hboundary, if_neg Bool.false_ne_true] at hmem
    exact List.not_mem_nil hmem
  | true =>
    obtain ⟨place, hleast, hmost, haddr⟩ := (mem_operandAddresses_iff hboundary).mp hmem
    have htwo := operandLength_le (Mode.ofOpcode m.fetch.1)
    have hpc : m.registers.pc = 0x4015 - UInt16.ofNat place := by
      rw [haddr, UInt16.add_sub_cancel]
    -- the opcode would come from a register that can only be written
    have hopcode : m.fetch.1 = 0x40 := by
      change (m.bus.read m.registers.pc).1 = 0x40
      obtain rfl | rfl : place = 1 ∨ place = 2 := by omega
      · rw [hpc]
        rfl
      · rw [hpc]
        rfl
    have hnone : (Mode.ofOpcode 0x40).operandLength = 0 := rfl
    rw [hopcode, hnone] at hmost
    omega

/-- In its first cycle an instruction with an immediate operand does not read it, but the trace
does. -/
theorem tracedCycle_ne_cycle {opcode : UInt8} (hboundary : m.cpu.atBoundary = true)
    (hfetch : m.bus.read m.registers.pc = (opcode, m.bus))
    (hmode : Mode.ofOpcode opcode = .immediate)
    (hchange : (m.bus.read (m.registers.pc + 1)).2 ≠ m.bus) :
    m.operandAddresses = [m.registers.pc + 1] ∧ m.tracedCycle.2 ≠ m.cycle := by
  obtain ⟨hphase, htransfer⟩ := Cpu.atBoundary_iff.mp hboundary
  have hopcode : m.fetch.1 = opcode := congrArg Prod.fst hfetch
  have hcounted : m.countCycle.fetch.1 = opcode := hopcode
  have hbus : m.countCycle.fetch.2.bus = m.bus := congrArg Prod.snd hfetch
  have hstart (n : Machine) : (n.start opcode).bus = n.bus := by
    rw [start, hmode]
    rfl
  have hlength : (Mode.ofOpcode opcode).operandLength = 1 := by
    rw [hmode]
    rfl
  refine ⟨?_, fun hsame ↦ hchange ?_⟩
  · rw [operandAddresses, if_pos hboundary, hopcode, hlength]
    rfl
  · rw [tracedCycle_of_fetch hboundary, trace_snd, cycle_of_fetch htransfer hphase,
      hcounted] at hsame
    have hread := congrArg bus hsame
    rw [hstart, hstart, peekOperand_snd, peekOperand_snd, hlength, if_pos (Nat.le_refl 1),
      if_neg (by decide), hbus] at hread
    exact hread

/-- The bus of a console without a cartridge, with the opcode of an `LDA` that has an immediate
operand as the last byte on the bus of the picture chip. -/
def loadOnPictureBus : Bus :=
  { Bus.powerOn .ntsc .empty with
    ppu := { Ppu.powerOn .ntsc with controls := { ioBus := 0xa9 } } }

/-- An operand byte in the status or a data register of the picture chip: the register before it can
only be written and reads as the opcode. -/
theorem exists_disturbed_picture {addr : UInt16} {index : Fin 8}
    (hregion : Region.ofAddress addr = .picture index)
    (hchanges : (Region.picture index).changesOnRead = true) :
    ∃ m : Machine, m.operandAddresses = [addr] ∧ m.tracedCycle.2 ≠ m.cycle := by
  obtain ⟨hlow, hhigh, hindex⟩ := Region.ofAddress_eq_picture hregion
  have hplace : index.val = 2 ∨ index.val = 4 ∨ index.val = 7 := by
    simpa only [Region.changesOnRead, Bool.or_eq_true, beq_iff_eq, or_assoc] using hchanges
  have hmod : index.val = addr.toNat % 8 := congrArg Fin.val hindex
  have hbefore : (addr - 1).toNat = addr.toNat - 1 :=
    UInt16.toNat_sub_of_le _ _ (UInt16.le_iff_toNat_le.mpr (Nat.le_trans (by decide) hlow))
  have hregister : Region.ofAddress (addr - 1) = .picture (low3 (addr - 1).toNat) :=
    Region.ofAddress_of_picture (by omega) (by omega)
  have hquiet : (Region.picture (low3 (addr - 1).toNat)).changesOnRead = false := by
    simp only [Region.changesOnRead, val_low3, Bool.or_eq_false_iff, beq_eq_false_iff_ne]
    omega
  have hfetch : loadOnPictureBus.read (addr - 1) = (0xa9, loadOnPictureBus) := by
    simp only [Bus.read, hregister]
    exact Bus.readPicture_of_quiet hquiet
  have hchange : (loadOnPictureBus.read addr).2 ≠ loadOnPictureBus := by
    intro hsame
    have hbyte := congrArg (fun b ↦ b.ppu.controls.ioBus) hsame
    simp only [Bus.read, hregion] at hbyte
    obtain h | h | h := hplace
    · obtain rfl : index = 2 := Fin.ext h
      exact absurd hbyte (by decide)
    · obtain rfl : index = 4 := Fin.ext h
      exact absurd hbyte (by decide)
    · obtain rfl : index = 7 := Fin.ext h
      exact absurd hbyte (by decide)
  have hpc : addr - 1 + 1 = addr := UInt16.sub_add_cancel addr 1
  refine ⟨⟨{ registers := { pc := addr - 1 } }, loadOnPictureBus⟩, ?_⟩
  rw [← hpc] at hchange
  have hdisturbs := tracedCycle_ne_cycle
    (m := ⟨{ registers := { pc := addr - 1 } }, loadOnPictureBus⟩) rfl hfetch rfl hchange
  change _ = [addr - 1 + 1] ∧ _ at hdisturbs
  rwa [hpc] at hdisturbs

/-- An operand byte in the first controller: the status of the sound chip, with the first pulse
channel and the noise channel active, reads as the opcode of an `ORA` that has an immediate
operand. -/
theorem exists_disturbed_firstPad :
    ∃ m : Machine, m.operandAddresses = [0x4016] ∧ m.tracedCycle.2 ≠ m.cycle := by
  let apu : Apu :=
    { Apu.powerOn .ntsc with
      pulse1 := { unit := .one, length := { value := 1 } }
      noise := { television := .ntsc, length := { value := 1 } } }
  let bus : Bus := { Bus.powerOn .ntsc .empty with apu }
  have hstatus : bus.apu.statusByte = 9 := by decide
  have hfetch : bus.read 0x4015 = (9, bus) := by
    rw [bus.read_soundStatus, Bus.readSoundStatus_of_quiet rfl, hstatus]
  have hnext : (0x4015 : UInt16) + 1 = 0x4016 := by decide
  have hchange : (bus.read (0x4015 + 1)).2 ≠ bus := by
    intro hsame
    have hreads := congrArg (fun b ↦ (b.pads.get 0).reads) hsame
    rw [hnext] at hreads
    exact absurd hreads (by decide)
  have hdisturbs := tracedCycle_ne_cycle
    (m := ⟨{ registers := { pc := 0x4015 } }, bus⟩) rfl hfetch rfl hchange
  exact ⟨_, hdisturbs⟩

/-- An operand byte in the second controller: the first one, with its button down, reads as the
opcode of an `EOR` through a pointer. The instruction fetches the pointer once, and the trace once
more. -/
theorem exists_disturbed_secondPad :
    ∃ m : Machine, m.operandAddresses = [0x4017] ∧ m.tracedCycle.2 ≠ m.cycle := by
  let bus : Bus := { Bus.powerOn .ntsc .empty with pads := #v[{ copied := 1 }, {}] }
  refine ⟨⟨{ registers := { pc := 0x4016 } }, bus⟩, by decide, fun hsame ↦ ?_⟩
  have hreads := congrArg (fun m ↦ (m.bus.pads.get 1).reads) hsame
  exact absurd hreads (by decide +kernel)

theorem exists_disturbed {addr : UInt16} (hstatus : addr ≠ 0x4015)
    (hchanges : (Region.ofAddress addr).changesOnRead = true) :
    ∃ m : Machine, m.operandAddresses = [addr] ∧ m.tracedCycle.2 ≠ m.cycle := by
  cases hregion : Region.ofAddress addr with
  | ram cell | testBlock cell | cartridge addr =>
    rw [hregion] at hchanges
    exact absurd hchanges Bool.false_ne_true
  | picture index =>
    rw [hregion] at hchanges
    exact exists_disturbed_picture hregion hchanges
  | io offset =>
    rw [hregion] at hchanges
    simp only [Region.changesOnRead, Bool.or_eq_true, beq_iff_eq, or_assoc] at hchanges
    have haddr := Region.toNat_of_io hregion
    obtain h | h | h := hchanges
    · exact absurd (UInt16.toNat_inj.mp (haddr.trans (congrArg _ h))) hstatus
    · obtain rfl : addr = 0x4016 := UInt16.toNat_inj.mp (haddr.trans (congrArg _ h))
      exact exists_disturbed_firstPad
    · obtain rfl : addr = 0x4017 := UInt16.toNat_inj.mp (haddr.trans (congrArg _ h))
      exact exists_disturbed_secondPad

/-- The program has its operand bytes at addresses of a set `S` only, and the cartridge does not
lack them. Then every run with the trace on is the run without it, exactly if no address of `S`
except that of the sound chip's status, where no operand byte can be, changes when it is read. -/
theorem tracedMany_eq_cycleMany_iff (S : UInt16 → Prop) :
    (∀ (m : Machine) (n : Nat),
        (∀ k < n, ∀ addr ∈ (m.cycleMany k).operandAddresses,
          S addr ∧ (m.cycleMany k).bus.misses addr = false) →
        m.tracedMany n = m.cycleMany n) ↔
      ∀ addr, S addr → addr ≠ 0x4015 → (Region.ofAddress addr).changesOnRead = false := by
  constructor
  · intro hsilent addr hS hstatus
    rw [← Bool.not_eq_true]
    intro hchanges
    obtain ⟨m, hoperands, hdisturbed⟩ := exists_disturbed hstatus hchanges
    refine hdisturbed (hsilent m 1 fun k hk operand hoperand ↦ ?_)
    obtain rfl : k = 0 := Nat.lt_one_iff.mp hk
    rw [cycleMany_zero, hoperands, List.mem_singleton] at hoperand
    rw [hoperand]
    exact ⟨hS, Bus.misses_of_changesOnRead hchanges⟩
  · intro hquiet m n hoperands
    refine tracedMany_eq_cycleMany fun k hk addr haddr ↦ ?_
    obtain ⟨hS, hbyte⟩ := hoperands k hk addr haddr
    refine ⟨hquiet addr hS ?_, hbyte⟩
    rintro rfl
    exact soundStatus_notMem_operandAddresses _ haddr

/-- `LDA` with its operand in the data register of the picture chip. -/
def onDataRegister : Machine :=
  (((((powerOn .ntsc .empty).write 0x2006 0x21).write 0x2006 0x00).write 0x2002 0xa9)).jump 0x2006

/-- The trace takes the byte that was meant for the program: without it the accumulator gets what
the register held, with it what the register has fetched since, and the address has moved on
twice. -/
theorem tracedMany_ne_cycleMany_onDataRegister :
    (onDataRegister.cycleMany 2).registers.a = 0x00 ∧
      (onDataRegister.tracedMany 2).registers.a = 0x21 ∧
      (onDataRegister.cycleMany 2).bus.ppu.controls.v.word = 0x2101 ∧
      (onDataRegister.tracedMany 2).bus.ppu.controls.v.word = 0x2102 := by
  decide

end Machine

end Famicom
