import Famicom.Proofs.Console.Lockstep
import Famicom.Proofs.Machine.Transfer
import Mathlib.Tactic.IntervalCases

/-!
# Sprite transfers in the running console

A console that goes on running gives the transfer a dot of the picture chip before each cycle and a
cycle of the sound chip after it. Neither chip touches what the transfer reads, nor sprite memory
nor the place in it that is written next, whatever is rendered and whatever interrupts come. So the
machine of the console is as far as the count of cycles says, and when the transfer has ended
sprite memory holds the page (`Console.Copies`).

## Counting cycles through dots

No dot has more than one cycle, and some dots later there is one (`Reachable.exists_cycled`). What
the picture chip keeps and the next `len` cycles count up is therefore counted up to `len` after
some number of dots, and each cycle on the way finds it at a smaller count (`Reachable.counts`).
-/

namespace Famicom

namespace Console

variable {c : Console} {dots sound : Nat}

/-! ## From one cycle to the next -/

/-- The time until the next cycle is due, in units of the clock. -/
def gap (c : Console) : Nat := c.clock.ratio.denominator - c.clock.accumulator

/-- A dot has one cycle, or it has none and brings the next one nearer. -/
theorem IsPaced.cycled_cases (h : c.IsPaced dots sound) :
    (c.cycled = [] ∧ c.stepDot.2.machine = c.pictured ∧ c.stepDot.2.gap < c.gap) ∨
      (c.cycled = [c.pictured] ∧ c.stepDot.2.machine = c.pictured.sharedCycle) := by
  obtain ⟨⟨hratio, -⟩, hlt, -, -⟩ := h
  have hratios : 0 < c.clock.ratio.numerator ∧
      c.clock.ratio.numerator < c.clock.ratio.denominator := by
    rw [hratio]
    cases c.television <;> decide
  rw [← hratio] at hlt
  by_cases hdue : c.clock.accumulator + c.clock.ratio.numerator < c.clock.ratio.denominator
  · have hnone : c.clock.tick.1 = 0 := Nat.div_eq_of_lt hdue
    refine Or.inl ⟨by rw [cycled, hnone, startsOf], ?_, ?_⟩
    · rw [machine_stepDot, hnone, runCycles_zero]
    · have hrest : c.stepDot.2.clock.accumulator =
          c.clock.accumulator + c.clock.ratio.numerator := Nat.mod_eq_of_lt hdue
      have hsame : c.stepDot.2.clock.ratio = c.clock.ratio := rfl
      rw [gap, gap, hrest, hsame]
      omega
  · have hone : c.clock.tick.1 = 1 := Nat.div_eq_of_lt_le (by omega) (by omega)
    refine Or.inr ⟨by rw [cycled, hone, startsOf, startsOf], ?_⟩
    rw [machine_stepDot, hone, runCycles_succ, runCycles_zero]

/-- Some dots later there is a cycle. What the picture chip keeps is kept until then. -/
theorem Reachable.exists_cycled {P : Machine → Prop} (h : Reachable c)
    (hpicture : ∀ m : Machine, P m → P ⟨m.cpu, m.bus.clockPicture.2⟩) (hstart : P c.machine) :
    ∃ n, (∀ j < n, (c.stepDots j).2.cycled = []) ∧ P (c.stepDots n).2.pictured ∧
      (c.stepDots n).2.cycled = [(c.stepDots n).2.pictured] ∧
      (c.stepDots (n + 1)).2.machine = (c.stepDots n).2.pictured.sharedCycle := by
  -- the induction is on the gap, which every dot without a cycle brings down
  obtain ⟨g, hg⟩ : ∃ g, c.gap = g := ⟨_, rfl⟩
  induction g using Nat.strongRecOn generalizing c with
  | ind g ih =>
    have hpictured : P c.pictured := hpicture c.machine hstart
    obtain ⟨dots, sound, helapsed⟩ := h.elapsed
    rcases helapsed.isPaced.cycled_cases with ⟨hnone, hmachine, hgap⟩ | ⟨hone, hmachine⟩
    · rw [← hmachine] at hpictured
      obtain ⟨n, hquiet, hkept, hcycled, hnext⟩ := ih _ (hg ▸ hgap) h.stepDot hpictured rfl
      simp only [← stepDots_succ] at hquiet hkept hcycled hnext
      refine ⟨n + 1, ?_, hkept, hcycled, hnext⟩
      intro j hj
      cases j with
      | zero => exact hnone
      | succ j => exact hquiet j (Nat.lt_of_succ_lt_succ hj)
    · refine ⟨0, ?_, hpictured, hone, hmachine⟩
      intro j hj
      exact absurd hj (Nat.not_lt_zero j)

/-- What the picture chip keeps and each of the next `len` cycles counts up is counted up to `len`
some dots later. -/
theorem Reachable.counts {P : Nat → Machine → Prop} (h : Reachable c) (len : Nat)
    (hpicture : ∀ k (m : Machine), P k m → P k ⟨m.cpu, m.bus.clockPicture.2⟩)
    (hcycle : ∀ k (m : Machine), k < len → P k m → P (k + 1) m.sharedCycle)
    (hstart : P 0 c.machine) :
    ∃ n, P len (c.stepDots n).2.machine ∧
      ∀ j < n, ∀ m ∈ (c.stepDots j).2.cycled, ∃ k < len, P k m := by
  induction len with
  | zero =>
    refine ⟨0, hstart, ?_⟩
    intro j hj
    exact absurd hj (Nat.not_lt_zero j)
  | succ len ih =>
    obtain ⟨n, hlen, hbefore⟩ := ih fun k m hk ↦ hcycle k m (Nat.lt_succ_of_lt hk)
    obtain ⟨a, hquiet, hkept, hcycled, hnext⟩ := (h.stepDots n).exists_cycled (hpicture len) hlen
    refine ⟨n + (a + 1), ?_, ?_⟩
    · rw [stepDots_add, hnext]
      exact hcycle len _ (Nat.lt_succ_self len) hkept
    · intro j hj m hm
      rcases Nat.lt_or_ge j n with hlt | hge
      · obtain ⟨k, hk, hP⟩ := hbefore j hlt m hm
        exact ⟨k, Nat.lt_succ_of_lt hk, hP⟩
      · obtain ⟨i, rfl⟩ := Nat.exists_eq_add_of_le hge
        rw [stepDots_add] at hm
        rcases Nat.lt_or_eq_of_le (Nat.le_of_lt_succ (Nat.lt_of_add_lt_add_left hj)) with hi | rfl
        · rw [hquiet i hi] at hm
          exact absurd hm List.not_mem_nil
        · rw [hcycled, List.mem_singleton] at hm
          rw [hm]
          exact ⟨len, Nat.lt_succ_self len, hkept⟩

/-! ## The transfer -/

/-- No transfer is left asked for, neither between dots nor between the cycles of a dot. -/
theorem Reachable.transferPage_eq_none (h : Reachable c) :
    c.machine.bus.transferPage = none ∧ ∀ m ∈ c.cycled, m.bus.transferPage = none := by
  refine h.bus_invariant (P := fun b ↦ b.transferPage = none) ?_ (fun b ↦ id)
    (fun m hm ↦ Machine.transferPage_cycle hm) ?_ (fun b pads ↦ id)
  · intro c powerCycle
    obtain ⟨_, _, _, _, _, hreset⟩ := c.reset_eq powerCycle
    rw [hreset]
  · intro b addr hb
    rwa [b.transferPage_read]

/-- In the next `n` dots a page is copied to sprite memory, and nothing else happens in the cycles
of the processor. Reads fall on odd counts of cycles and writes on even ones. -/
structure Copies (c : Console) (page : UInt8) (n : Nat) : Prop where
  owned : ∀ j < n, ∀ m ∈ (c.stepDots j).2.cycled,
    ∃ t : Transfer, m.cpu.transfer = some t ∧ m.cycle = m.countCycle.stepTransfer t ∧
      m.cycle.bus = m.bus.perform t.action ∧ t.action.FallsOn m.cycle.cpu.cycles
  duration : (c.stepDots n).2.cpu.cycles = c.cpu.cycles + (512 + c.cpu.cycles % 2)
  ended : (c.stepDots n).2.cpu.transfer = none
  oam : ∀ i : UInt8,
    (c.stepDots n).2.machine.bus.ppu.sprites.byte (c.machine.oamStart + i) =
      c.machine.bus.source page i
  oamStart : (c.stepDots n).2.machine.oamStart = c.machine.oamStart
  memory : c.machine.bus.SameMemory (c.stepDots n).2.machine.bus
  registers : (c.stepDots n).2.cpu.registers = c.cpu.registers

/-- A transfer that has just started runs to its end. -/
theorem Reachable.exists_copies {page : UInt8} (h : Reachable c) (hpage : IsPlain page)
    (hstart : c.cpu.transfer = some { page, idle := c.cpu.cycles % 2 }) : ∃ n, c.Copies page n := by
  obtain ⟨n, hend, hcycles⟩ := h.counts (P := Machine.IsCopying c.machine page)
    (Transfer.duration c.cpu.cycles)
    (fun k m hm ↦ hm.sameBytes m.bus.sameBytes_clockPicture)
    (fun k m hk hm ↦ (hm.cycle hk hpage).sameBytes m.cycle.bus.sameBytes_clockSound)
    (Machine.isCopying_start hstart)
  have hall : c.machine.copied (Transfer.duration c.cpu.cycles) = 256 := c.machine.copied_duration
  refine ⟨n, ?_, hend.cycles, hend.ended (Nat.le_refl _), ?_, ?_, hend.memory, hend.registers⟩
  · intro j hj m hm
    obtain ⟨k, hk, hcopying⟩ := hcycles j hj m hm
    obtain ⟨t, htransfer, ht, hcycle⟩ := hcopying.cycle_eq hk
    refine ⟨t, htransfer, Machine.cycle_of_transfer htransfer, congrArg Machine.bus hcycle, ?_⟩
    rw [Machine.cycles_cycle, hcopying.cycles]
    exact ht.fallsOn
  · intro i
    rw [hend.oam i, hall, if_pos i.toNat_lt]
  · have haddress := hend.oamAddress
    rw [hall] at haddress
    exact haddress.trans (UInt8.add_zero _)

/-! ## A program that asks for a transfer

A cartridge of 16 KiB whose program begins with a store to the register that asks for transfers. It
is followed from the reset to the last cycle of that store. -/

/-- The header of an image with one chunk of program on an NROM board. -/
def smallHeader : Array UInt8 := #[0x4e, 0x45, 0x53, 0x1a, 1, 0, 0, 0, 0, 0, 0, 0, 0, 0, 0, 0]

/-- The slot with one chunk of program on an NROM board. -/
def smallSlot (program : Array UInt8) : Slot :=
  .holding (.assemble .nrom program #[] .horizontal false)

theorem ofBytes_small {program : Array UInt8} (h : program.size = 0x4000) :
    Slot.ofBytes (smallHeader ++ program) = .ok (smallSlot program) := by
  have hsize : (smallHeader ++ program).size = 0x4010 := by
    simp [smallHeader, h]
  have hlong : Image.headerSize ≤ (smallHeader ++ program).size := by
    rw [hsize]
    decide
  have hheader : Image.readHeader (smallHeader ++ program) hlong = ⟨1, 0, 0, 0⟩ := by
    simp [Image.readHeader, smallHeader]
  have hmagic : (smallHeader ++ program).extract 0 4 = Image.magic := by
    rw [Array.extract_append]
    simp [smallHeader, Image.magic]
  have hprogram : (smallHeader ++ program).extract 16 0x4010 = program := by
    rw [Array.extract_append]
    simp [smallHeader, h]
  have hpatterns : (smallHeader ++ program).extract 0x4010 0x4010 = #[] := by
    simp
  have hparse : Image.parse (smallHeader ++ program) =
      .ok ⟨program, #[], .horizontal, false, 0⟩ := by
    rw [Image.parse, dif_pos hlong]
    dsimp only
    rw [hheader, if_neg (not_not_intro hmagic), hsize]
    change Except.ok (Image.mk ((smallHeader ++ program).extract 16 0x4010)
      ((smallHeader ++ program).extract 0x4010 0x4010) _ _ _) = _
    rw [hprogram, hpatterns]
    rfl
  rw [Slot.ofBytes, hparse]
  rfl

theorem readCpu?_small {program : Array UInt8} (h : program.size = 0x4000) {addr : UInt16}
    (haddr : ¬addr < 0x8000) :
    (smallSlot program).readCpu? addr = program[(addr.toNat - 0x8000) % 0x4000]? := by
  have hprogram : program.isEmpty = false := by
    rw [Array.isEmpty_eq_false_iff, ← Array.size_pos_iff, h]
    decide
  have hlow : ¬addr < 0x6000 := by
    intro hlt
    exact haddr (UInt16.lt_trans hlt (by decide))
  rw [smallSlot, Slot.readCpu?, Board.readCpu?, if_neg hlow, if_neg haddr, Board.assemble]
  dsimp only
  rw [hprogram, if_neg Bool.false_ne_true, h]
  rfl

/-- The program: the store at its start, and the reset vector that points there. -/
def storeProgram : Array UInt8 :=
  #[0x8d, 0x14, 0x40] ++ Array.replicate 0x3ff9 0 ++ #[0, 0x80, 0, 0]

theorem size_storeProgram : storeProgram.size = 0x4000 := by
  simp [storeProgram]

/-- What the processor reads up to its first store. -/
theorem readCpu?_storeProgram :
    (smallSlot storeProgram).readCpu? 0xfffc = some 0 ∧
      (smallSlot storeProgram).readCpu? 0xfffd = some 0x80 ∧
      (smallSlot storeProgram).readCpu? 0x8000 = some 0x8d ∧
      (smallSlot storeProgram).readCpu? 0x8001 = some 0x14 ∧
      (smallSlot storeProgram).readCpu? 0x8002 = some 0x40 := by
  refine ⟨?_, ?_, ?_, ?_, ?_⟩ <;> rw [readCpu?_small size_storeProgram (by decide)] <;>
    simp [storeProgram]

/-- A console with that cartridge, just switched on. -/
def storing : Console := (powerOn .ntsc).replaceSlot (smallSlot storeProgram)

theorem reachable_storing : Reachable storing := by
  have hinsert : (powerOn .ntsc).insert (smallHeader ++ storeProgram) = .ok storing := by
    rw [insert, ofBytes_small size_storeProgram]
    rfl
  exact (Reachable.powerOn .ntsc).insert hinsert

/-- Its processor after `k` cycles, up to the last cycle of the store: the reset, the fetch of the
opcode, and the cycles of waiting. -/
def storeCpu (k : Nat) : Cpu :=
  if k < 7 then { registers := { pc := 0x8000 }, phase := .stall (7 - k), cycles := k }
  else if k = 7 then { registers := { pc := 0x8000 }, cycles := k }
  else
    { registers := { pc := 0x8003 }
      phase := .execute ⟨.store .sta, .absolute, 0x4014, false⟩ (11 - k)
      cycles := k }

theorem machine_replaceSlot (c : Console) (slot : Slot) :
    ∃ m : Machine, (c.replaceSlot slot).machine = m.resetCpu true ∧ m.bus.slot = slot ∧
      m.bus.transferPage = none ∧ m.bus.ppu = c.machine.bus.ppu.reset ∧
      m.bus.apu = c.machine.bus.apu.reset := by
  obtain ⟨television, ⟨cpu, bus⟩, clock, speed⟩ := c
  simp only [replaceSlot, modifyBus, reset]
  exact ⟨_, rfl, rfl, rfl, rfl, rfl⟩

theorem machine_storing :
    storing.machine.cpu = storeCpu 0 ∧ storing.machine.bus.slot = smallSlot storeProgram := by
  obtain ⟨hlow, hhigh, -⟩ := readCpu?_storeProgram
  obtain ⟨m, hm, hslot, -⟩ := (powerOn .ntsc).machine_replaceSlot (smallSlot storeProgram)
  have hvector : wordOf 0 0x80 = 0x8000 := UInt16.toNat_inj.mp (toNat_wordOf 0 0x80)
  rw [← hslot] at hlow hhigh
  rw [storing, hm, Machine.resetCpu_of_readCpu? hlow hhigh, hvector]
  exact ⟨rfl, hslot⟩

theorem cycle_storeCpu {b : Bus} (hslot : b.slot = smallSlot storeProgram) {k : Nat} (hk : k < 10) :
    Machine.cycle ⟨storeCpu k, b⟩ = ⟨storeCpu (k + 1), b⟩ := by
  by_cases hfetch : k = 7
  · subst hfetch
    obtain ⟨-, -, hopcode, hlow, hhigh⟩ := readCpu?_storeProgram
    rw [← hslot] at hopcode hlow hhigh
    let m : Machine := (Machine.mk (storeCpu 7) b).countCycle
    have hstart : m.fetch = (0x8d, m.jump 0x8001) := Machine.fetch_of_readCpu? rfl hopcode
    have hfirst : (m.jump 0x8001).fetch = (0x14, m.jump 0x8002) :=
      Machine.fetch_of_readCpu? rfl hlow
    have hsecond : (m.jump 0x8002).fetch = (0x40, m.jump 0x8003) :=
      Machine.fetch_of_readCpu? rfl hhigh
    have hmode : Mode.ofOpcode 0x8d = .absolute := rfl
    have htarget : wordOf 0x14 0x40 = 0x4014 := UInt16.toNat_inj.mp (toNat_wordOf 0x14 0x40)
    rw [Machine.cycle_of_fetch rfl rfl, hstart, Machine.start, hmode]
    simp only [Machine.resolve, Machine.fetchWord, hfirst, hsecond, htarget]
    rfl
  · interval_cases k <;> first | rfl | exact absurd rfl hfetch

theorem requested?_storeCpu (b : Bus) : Machine.requested? ⟨storeCpu 10, b⟩ = some 0 := by
  have hcompleting : Machine.completing? ⟨storeCpu 10, b⟩ =
      some ⟨.store .sta, .absolute, 0x4014, false⟩ := rfl
  rw [Machine.requested?, hcompleting]
  change (b.write 0x4014 0).transferPage = some 0
  rw [Bus.transferPage_write, if_pos rfl]

/-- Some dots after switching on, the next cycle is the last of the store. -/
theorem exists_requested_storing :
    ∃ n, ∃ m ∈ (storing.stepDots n).2.cycled, m.requested? = some 0 := by
  let P (k : Nat) (m : Machine) : Prop :=
    m.cpu = storeCpu k ∧ m.bus.slot = smallSlot storeProgram
  have hcycle (k : Nat) (m : Machine) (hk : k < 10) (hm : P k m) : P (k + 1) m.sharedCycle := by
    obtain ⟨cpu, b⟩ := m
    obtain ⟨rfl, hslot⟩ := hm
    rw [Machine.sharedCycle, cycle_storeCpu hslot hk]
    exact ⟨rfl, hslot⟩
  obtain ⟨a, hready, -⟩ :=
    reachable_storing.counts (P := P) 10 (fun k m hm ↦ hm) hcycle machine_storing
  obtain ⟨n, -, ⟨hcpu, -⟩, hcycled, -⟩ :=
    (reachable_storing.stepDots a).exists_cycled (P := P 10) (fun m hm ↦ hm) hready
  rw [← stepDots_add] at hcpu hcycled
  refine ⟨a + n, (storing.stepDots (a + n)).2.pictured, ?_, ?_⟩
  · rw [hcycled]
    exact List.mem_singleton_self _
  · have hrequested := requested?_storeCpu (storing.stepDots (a + n)).2.pictured.bus
    rwa [← hcpu] at hrequested

/-! ## Requests -/

/-- Before and after every cycle no transfer is asked for. One that an instruction asks for in its
last cycle starts in that cycle, and if its page is one of memory or of the cartridge, then the
console copies the page. -/
theorem Reachable.copies_of_requested (h : Reachable c) :
    ∀ m ∈ c.cycled,
      m.bus.transferPage = none ∧ m.cycle.bus.transferPage = none ∧
        ∀ page, m.requested? = some page →
          m.cycle.cpu.transfer = some { page, idle := m.cycle.cpu.cycles % 2 } ∧
            (IsPlain page → ∃ n, c.stepDot.2.Copies page n) := by
  intro m hm
  have hnone := h.transferPage_eq_none.2 m hm
  refine ⟨hnone, Machine.transferPage_cycle hnone, ?_⟩
  intro page hrequested
  have htransfer := Machine.transfer_cycle_of_requested hrequested
  refine ⟨htransfer, ?_⟩
  intro hpage
  obtain ⟨dots, sound, helapsed⟩ := h.elapsed
  rcases helapsed.isPaced.cycled_cases with ⟨hempty, -, -⟩ | ⟨hone, hmachine⟩
  · rw [hempty] at hm
    exact absurd hm List.not_mem_nil
  · rw [hone, List.mem_singleton] at hm
    have hcpu : c.stepDot.2.cpu = m.cycle.cpu := by
      rw [hm, cpu, hmachine]
      rfl
    refine h.stepDot.exists_copies hpage ?_
    rw [hcpu]
    exact htransfer

/-- The first transfer of a console whose program begins by asking for one. -/
theorem copies_of_requested_storing :
    ∃ n, Reachable (storing.stepDots n).2 ∧
      ∃ m ∈ (storing.stepDots n).2.cycled, m.requested? = some 0 ∧ IsPlain 0 ∧
        ∃ k, (storing.stepDots n).2.stepDot.2.Copies 0 k := by
  obtain ⟨n, m, hm, hrequested⟩ := exists_requested_storing
  have hreachable := reachable_storing.stepDots n
  have hplain : IsPlain 0 := by decide
  obtain ⟨-, -, hcopies⟩ := Reachable.copies_of_requested hreachable m hm
  exact ⟨n, hreachable, m, hm, hrequested, hplain, (hcopies 0 hrequested).2 hplain⟩

end Console

end Famicom
