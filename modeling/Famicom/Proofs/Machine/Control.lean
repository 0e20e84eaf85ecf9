import Famicom.Proofs.Machine.Instruction

/-!
# The control of the processor

The phase of the processor and the transfer beside it say what its next cycle does. Both carry
counters, and a counter that could run away, or a pair of them that could hold each other up, would
leave the processor stuck. Neither happens: in every machine that has come from power-on the
counters stay within their bounds (`Cpu.IsControlled`), and the next instruction completes within

```text
(1 + 512)  +  7  +  8  =  528
```

cycles, those of a transfer, of an entry and of the longest instruction. The one exception is a
jammed processor, and that has nothing left to count but a transfer.

## Moves

`Cpu.Moves` lists what a cycle can do to the control, one constructor for each kind of cycle. The
invariant, the count that every cycle brings down (`Cpu.budget`) and the standstill of a jammed
processor are read off that list.

The bound leaves the rest of the console free. Other work may come on the bus after every cycle, and
more interrupts be asked for (`Machine.cyclesAmid`).
-/

namespace Famicom

/-! ## The counters -/

namespace Phase

/-- The cycles still counted down for an instruction or for the entry of an interrupt. -/
def remaining : Phase → Nat
  | .execute _ left | .enter left => left
  | .fetch | .stall _ | .jammed => 0

/-- The cycles that a reset still takes. -/
def resetDelay : Phase → Nat
  | .stall left => left
  | .fetch | .execute _ _ | .enter _ | .jammed => 0

/-- The instruction that has been resolved and has not had its effect. -/
def pending? : Phase → Option Instruction
  | .execute i _ => some i
  | .fetch | .enter _ | .stall _ | .jammed => none

/-- The cycles within which a phase completes an instruction. None takes more than eight. -/
def budget : Phase → Nat
  | .fetch => 8
  | .execute _ left => max left 1
  | .enter left | .stall left => max left 1 + 8
  | .jammed => 0

end Phase

/-- The counters of a phase are within their bounds. -/
structure Phase.IsBounded (p : Phase) : Prop where
  remaining_le : p.remaining ≤ 7
  resetDelay_le : p.resetDelay ≤ 7
  remaining_pos : ∀ i, p.pending? = some i → 1 ≤ p.remaining
  jammed_idle : p = .jammed → p.pending? = none ∧ p.remaining = 0 ∧ p.resetDelay = 0

/-- The counters of a transfer are within their bounds. -/
structure Transfer.IsBounded (t : Transfer) : Prop where
  step_lt : t.step < steps
  idle_le : t.idle ≤ 1

namespace Cpu

/-- The control of the processor is well formed. -/
structure IsControlled (c : Cpu) : Prop where
  phase : c.phase.IsBounded
  transfer : ∀ t, c.transfer = some t → t.IsBounded

/-- The cycles that a transfer still takes, none if there is none. -/
def transferLeft (c : Cpu) : Nat := c.transfer.elim 0 Transfer.left

/-- The cycles within which an instruction completes: those of a transfer and those of the phase. -/
def budget (c : Cpu) : Nat := c.transferLeft + c.phase.budget

/-- What a cycle does to the control of the processor, by the kind of the cycle. -/
inductive Moves (c d : Cpu) : Prop where
  | transfer (t : Transfer) (value : UInt8) (before : c.transfer = some t)
      (after : d.transfer = t.next value) (phase : d.phase = c.phase)
      (registers : d.registers = c.registers)
  | start (i : Instruction) (left : Nat) (before : c.transfer = none) (fetch : c.phase = .fetch)
      (after : d.transfer = none) (phase : d.phase = .execute i left) (pos : 1 ≤ left)
      (le : left ≤ 7)
  | wait (i : Instruction) (left : Nat) (before : c.transfer = none)
      (execute : c.phase = .execute i (left + 1)) (pos : 1 ≤ left) (after : d.transfer = none)
      (phase : d.phase = .execute i left)
  | complete (i : Instruction) (left : Nat) (page? : Option UInt8) (idle : Nat)
      (before : c.transfer = none) (execute : c.phase = .execute i left) (last : left ≤ 1)
      (after : d.transfer = page?.map fun page ↦ { page, idle }) (le : idle ≤ 1)
      (phase : d.phase = .fetch ∨ d.phase = .enter entryCycles ∨ d.phase = .jammed)
  | enter (left : Nat) (before : c.transfer = none) (enter : c.phase = .enter left)
      (after : d.transfer = none)
      (phase : d.phase = if 1 < left then .enter (left - 1) else .fetch)
  | stall (left : Nat) (before : c.transfer = none) (stall : c.phase = .stall left)
      (after : d.transfer = none)
      (phase : d.phase = if 1 < left then .stall (left - 1) else .fetch)
  | jammed (before : c.transfer = none) (jammed : c.phase = .jammed) (after : d.transfer = none)
      (phase : d.phase = .jammed) (registers : d.registers = c.registers)

end Cpu

/-! ## The longest instruction -/

/-- A branch pays for its way on top of its count, other instructions at most for a page. -/
theorem Opcode.cycles_add_le (opcode : UInt8) :
    cycles opcode + (paysForPage opcode).toNat + 2 * (operation opcode).isBranch.toNat ≤ 8 := by
  have hall : ∀ n : Fin 256,
      cycles (UInt8.ofNat n) + (paysForPage (UInt8.ofNat n)).toNat +
        2 * (operation (UInt8.ofNat n)).isBranch.toNat ≤ 8 := by decide +kernel
  simpa only [UInt8.ofNat_toNat] using hall ⟨opcode.toNat, opcode.toNat_lt⟩

namespace Machine

/-- No instruction takes more than eight cycles. -/
theorem Decoded.cycles_le {d : Decoded}
    (h : d.instruction.operation = Opcode.operation d.opcode) : d.cycles ≤ 8 := by
  have hopcode := Opcode.cycles_add_le d.opcode
  have hpage : (if d.instruction.pageCrossed && Opcode.paysForPage d.opcode then 1 else 0) ≤
      (Opcode.paysForPage d.opcode).toNat := by
    cases d.instruction.pageCrossed <;> cases Opcode.paysForPage d.opcode <;> decide
  have hbranch : (if d.branches then if d.instruction.pageCrossed then 2 else 1 else 0) ≤
      2 * (Opcode.operation d.opcode).isBranch.toNat := by
    unfold Decoded.branches
    rw [← h]
    cases d.instruction.operation with
    | branch op =>
      dsimp only
      change _ ≤ 2
      split
      · split <;> decide
      · exact Nat.zero_le _
    | _ => exact Nat.zero_le _
  unfold Decoded.cycles
  omega

variable {m : Machine}

/-! ## Every cycle is a move -/

theorem moves_completing {i : Instruction} {left : Nat} (htransfer : m.cpu.transfer = none)
    (hphase : m.cpu.phase = .execute i left) (hleft : left ≤ 1) : m.cpu.Moves m.cycle.cpu := by
  have hi : m.completing? = some i := completing?_eq_some.mpr ⟨htransfer, left, hphase, hleft⟩
  obtain ⟨hfetch, hbegun⟩ := cpu_settled htransfer i
  have hidle : (m.cpu.cycles + 1) % 2 ≤ 1 := Nat.le_of_lt_succ (Nat.mod_lt _ Nat.zero_lt_two)
  by_cases hjam : i.operation = .jam
  · rw [cycle_of_jamming hi hjam]
    exact .complete i left _ _ htransfer hphase hleft hbegun hidle (Or.inr (Or.inr rfl))
  · rw [cycle_of_entering hi hjam]
    cases m.entering? with
    | none => exact .complete i left _ _ htransfer hphase hleft hbegun hidle (Or.inl hfetch)
    | some interrupt =>
      exact .complete i left _ _ htransfer hphase hleft ((transfer_enter _ _).trans hbegun) hidle
        (Or.inr (Or.inl (phase_enter _ _)))

theorem moves_cycle (m : Machine) : m.cpu.Moves m.cycle.cpu := by
  cases htransfer : m.cpu.transfer with
  | some t =>
    rw [cycle_of_transfer htransfer, stepTransfer_eq]
    exact .transfer t _ htransfer rfl rfl rfl
  | none =>
    cases hphase : m.cpu.phase with
    | fetch =>
      have hboundary := Cpu.atBoundary_iff.mpr ⟨hphase, htransfer⟩
      have htwo := two_le_cycles m.decode
      have height : m.decode.cycles ≤ 8 := Decoded.cycles_le rfl
      rw [cycle_of_atBoundary hboundary]
      exact .start m.decode.instruction (m.decode.cycles - 1) htransfer hphase
        (transfer_decode hboundary) rfl (by omega) (by omega)
    | execute i left =>
      by_cases hleft : 1 < left
      · obtain ⟨n, rfl⟩ : ∃ n, left = n + 1 := ⟨left - 1, by omega⟩
        rw [cycle_of_waiting htransfer hphase hleft]
        exact .wait i n htransfer hphase (Nat.le_of_lt_succ hleft) htransfer rfl
      · exact moves_completing htransfer hphase (Nat.le_of_not_lt hleft)
    | enter left =>
      rw [cycle_of_enter htransfer hphase]
      exact .enter left htransfer hphase htransfer rfl
    | stall left =>
      rw [cycle_of_stall htransfer hphase]
      exact .stall left htransfer hphase htransfer rfl
    | jammed =>
      rw [cycle_of_jammed htransfer hphase]
      exact .jammed htransfer hphase htransfer hphase rfl

end Machine

/-! ## The invariant -/

namespace Phase.IsBounded

theorem fetch : Phase.fetch.IsBounded where
  remaining_le := Nat.zero_le 7
  resetDelay_le := Nat.zero_le 7
  remaining_pos i h := absurd h.symm (Option.some_ne_none i)
  jammed_idle h := Phase.noConfusion h

theorem execute {i : Instruction} {left : Nat} (hpos : 1 ≤ left) (hle : left ≤ 7) :
    (Phase.execute i left).IsBounded where
  remaining_le := hle
  resetDelay_le := Nat.zero_le 7
  remaining_pos _ _ := hpos
  jammed_idle h := Phase.noConfusion h

theorem enter {left : Nat} (hle : left ≤ 7) : (Phase.enter left).IsBounded where
  remaining_le := hle
  resetDelay_le := Nat.zero_le 7
  remaining_pos i h := absurd h.symm (Option.some_ne_none i)
  jammed_idle h := Phase.noConfusion h

theorem stall {left : Nat} (hle : left ≤ 7) : (Phase.stall left).IsBounded where
  remaining_le := Nat.zero_le 7
  resetDelay_le := hle
  remaining_pos i h := absurd h.symm (Option.some_ne_none i)
  jammed_idle h := Phase.noConfusion h

theorem jammed : Phase.jammed.IsBounded where
  remaining_le := Nat.zero_le 7
  resetDelay_le := Nat.zero_le 7
  remaining_pos i h := absurd h.symm (Option.some_ne_none i)
  jammed_idle _ := ⟨rfl, rfl, rfl⟩

end Phase.IsBounded

namespace Transfer

variable {t u : Transfer} {value : UInt8}

theorem IsBounded.next (h : t.IsBounded) (hu : t.next value = some u) : u.IsBounded := by
  unfold Transfer.next at hu
  split at hu
  · obtain rfl := Option.some.inj hu
    exact ⟨h.step_lt, Nat.le_trans (Nat.sub_le _ _) h.idle_le⟩
  · split at hu
    · next hlast =>
      obtain rfl := Option.some.inj hu
      exact ⟨hlast, h.idle_le⟩
    · exact absurd hu.symm (Option.some_ne_none u)

/-- A cycle of a transfer takes one from what is left of it. -/
theorem left_next (h : t.step < steps) (value : UInt8) :
    (t.next value).elim 0 left + 1 = t.left := by
  unfold next
  split
  · simp only [Option.elim_some, left]
    omega
  · split <;> simp only [Option.elim_some, Option.elim_none, left] <;> omega

theorem IsBounded.left_pos (h : t.IsBounded) : 0 < t.left :=
  Nat.lt_of_lt_of_le (Nat.sub_pos_of_lt h.step_lt) (Nat.le_add_left _ _)

theorem IsBounded.left_le (h : t.IsBounded) : t.left ≤ 513 :=
  Nat.add_le_add h.idle_le (Nat.sub_le steps t.step)

end Transfer

namespace Cpu

variable {c d : Cpu}

/-- A transfer that begins has done nothing yet. -/
theorem transfer_bounded_of_map {page? : Option UInt8} {idle : Nat}
    (h : c.transfer = page?.map fun page ↦ { page, idle }) (hidle : idle ≤ 1) :
    ∀ t, c.transfer = some t → t.IsBounded := by
  intro t ht
  obtain ⟨page, -, rfl⟩ := Option.map_eq_some_iff.mp (h.symm.trans ht)
  exact ⟨Nat.zero_lt_succ _, hidle⟩

theorem transfer_bounded_of_none (h : c.transfer = none) :
    ∀ t, c.transfer = some t → t.IsBounded := fun t ht ↦
  absurd (h.symm.trans ht) (Option.some_ne_none t).symm

/-- A move keeps the control well formed. -/
theorem IsControlled.moves (h : c.IsControlled) (hmove : c.Moves d) : d.IsControlled := by
  cases hmove with
  | transfer t value before after phase =>
    refine ⟨phase ▸ h.phase, fun u hu ↦ ?_⟩
    exact (h.transfer t before).next (after.symm.trans hu)
  | start i left before fetch after phase pos le =>
    exact ⟨phase ▸ .execute pos le, transfer_bounded_of_none after⟩
  | wait i left before execute pos after phase =>
    have hle := h.phase.remaining_le
    rw [execute] at hle
    exact ⟨phase ▸ .execute pos (Nat.le_of_succ_le hle), transfer_bounded_of_none after⟩
  | complete i left page? idle before execute last after le phase =>
    refine ⟨?_, transfer_bounded_of_map after le⟩
    rcases phase with phase | phase | phase <;> rw [phase]
    · exact .fetch
    · exact .enter (Nat.le_refl 7)
    · exact .jammed
  | enter left before enter after phase =>
    have hle := h.phase.remaining_le
    rw [enter] at hle
    refine ⟨?_, transfer_bounded_of_none after⟩
    rw [phase]
    split
    · exact .enter (Nat.le_trans (Nat.sub_le _ _) hle)
    · exact .fetch
  | stall left before stall after phase =>
    have hle := h.phase.resetDelay_le
    rw [stall] at hle
    refine ⟨?_, transfer_bounded_of_none after⟩
    rw [phase]
    split
    · exact .stall (Nat.le_trans (Nat.sub_le _ _) hle)
    · exact .fetch
  | jammed before jammed after phase => exact ⟨phase ▸ .jammed, transfer_bounded_of_none after⟩

/-! ## The budget -/

theorem transferLeft_of_none (h : c.transfer = none) : c.transferLeft = 0 := by
  rw [transferLeft, h, Option.elim_none]

theorem transferLeft_of_some {t : Transfer} (h : c.transfer = some t) :
    c.transferLeft = t.left := by
  rw [transferLeft, h, Option.elim_some]

theorem budget_of_none (h : c.transfer = none) : c.budget = c.phase.budget := by
  rw [budget, transferLeft_of_none h, Nat.zero_add]

namespace IsControlled

theorem transferLeft_le (h : c.IsControlled) : c.transferLeft ≤ 513 := by
  cases ht : c.transfer with
  | none =>
    rw [transferLeft_of_none ht]
    exact Nat.zero_le _
  | some t =>
    rw [transferLeft_of_some ht]
    exact (h.transfer t ht).left_le

/-- Cycles are left for a transfer as long as there is one. -/
theorem transferLeft_eq_zero (h : c.IsControlled) : c.transferLeft = 0 ↔ c.transfer = none := by
  constructor
  · intro hzero
    cases ht : c.transfer with
    | none => rfl
    | some t =>
      rw [transferLeft_of_some ht] at hzero
      exact absurd hzero (Nat.ne_of_gt (h.transfer t ht).left_pos)
  · exact transferLeft_of_none

theorem budget_le (h : c.IsControlled) : c.budget ≤ 528 := by
  have hphase : c.phase.budget ≤ 15 := by
    have hremaining := h.phase.remaining_le
    have hdelay := h.phase.resetDelay_le
    revert hremaining hdelay
    cases c.phase <;> simp only [Phase.budget, Phase.remaining, Phase.resetDelay] <;> omega
  exact Nat.add_le_add h.transferLeft_le hphase

end IsControlled

theorem budget_pos (h : c.phase ≠ .jammed) : 0 < c.budget := by
  have hphase : 0 < c.phase.budget := by
    cases hc : c.phase with
    | fetch => exact Nat.zero_lt_succ 7
    | execute i left => exact Nat.lt_of_lt_of_le Nat.one_pos (Nat.le_max_right left 1)
    | enter left | stall left => exact Nat.add_pos_right _ (Nat.zero_lt_succ 7)
    | jammed => exact absurd hc h
  exact Nat.add_pos_right _ hphase

/-- A cycle that completes nothing is one less to wait for, and it does not jam. -/
theorem budget_moves (h : c.IsControlled) (hmove : c.Moves d) (hjammed : c.phase ≠ .jammed)
    (hlast : ∀ i left, c.transfer = none → c.phase = .execute i left → 1 < left) :
    d.budget + 1 ≤ c.budget ∧ d.phase ≠ .jammed := by
  cases hmove with
  | transfer t value before after phase =>
    refine ⟨Nat.le_of_eq ?_, phase ▸ hjammed⟩
    have hleft := Transfer.left_next (h.transfer t before).step_lt value
    rw [budget, budget, transferLeft_of_some before, transferLeft, after, phase]
    omega
  | start i left before fetch after phase pos le =>
    rw [budget_of_none before, budget_of_none after, fetch, phase]
    simp only [Phase.budget]
    exact ⟨by omega, nofun⟩
  | wait i left before execute pos after phase =>
    rw [budget_of_none before, budget_of_none after, execute, phase]
    simp only [Phase.budget]
    exact ⟨by omega, nofun⟩
  | complete i left page? idle before execute last =>
    exact absurd (hlast i left before execute) (Nat.not_lt.mpr last)
  | enter left before enter after phase =>
    rw [budget_of_none before, budget_of_none after, enter, phase]
    split <;> simp only [Phase.budget] <;> exact ⟨by omega, nofun⟩
  | stall left before stall after phase =>
    rw [budget_of_none before, budget_of_none after, stall, phase]
    split <;> simp only [Phase.budget] <;> exact ⟨by omega, nofun⟩
  | jammed before jammed => exact absurd jammed hjammed

/-- A move of a jammed processor is one of its transfer, if there is one. -/
theorem IsControlled.moves_of_jammed (hc : c.IsControlled) (h : c.phase = .jammed)
    (hmove : c.Moves d) :
    d.phase = .jammed ∧ d.registers = c.registers ∧ d.transferLeft = c.transferLeft - 1 := by
  cases hmove with
  | transfer t value before after phase registers =>
    have hleft := Transfer.left_next (hc.transfer t before).step_lt value
    refine ⟨phase.trans h, registers, ?_⟩
    rw [transferLeft_of_some before, transferLeft, after]
    exact Nat.eq_sub_of_add_eq hleft
  | start i left before fetch => exact absurd (h.symm.trans fetch) nofun
  | wait i left before execute => exact absurd (h.symm.trans execute) nofun
  | complete i left page? idle before execute => exact absurd (h.symm.trans execute) nofun
  | enter left before enter => exact absurd (h.symm.trans enter) nofun
  | stall left before stall => exact absurd (h.symm.trans stall) nofun
  | jammed before _ after phase registers =>
    exact ⟨phase, registers, by rw [transferLeft_of_none before, transferLeft_of_none after]⟩

end Cpu

/-! ## Runs with other work on the bus -/

namespace Machine

variable {m : Machine}

/-- `n` processor cycles with other work on the bus, `work k` after cycle `k`: the chips run, lines
are asked for, another program reads and writes. -/
def cyclesAmid (work : Nat → Bus → Bus) : Nat → Machine → Machine
  | 0, m => m
  | n + 1, m => cyclesAmid (fun k ↦ work (k + 1)) n ⟨m.cycle.cpu, work 0 m.cycle.bus⟩

theorem cyclesAmid_succ' (work : Nat → Bus → Bus) (n : Nat) (m : Machine) :
    m.cyclesAmid work (n + 1) =
      ⟨(m.cyclesAmid work n).cycle.cpu, work n (m.cyclesAmid work n).cycle.bus⟩ := by
  induction n generalizing m work with
  | zero => rfl
  | succ n ih => exact ih (fun k ↦ work (k + 1)) _

theorem cyclesAmid_add (work : Nat → Bus → Bus) (a b : Nat) (m : Machine) :
    m.cyclesAmid work (a + b) = (m.cyclesAmid work a).cyclesAmid (fun k ↦ work (a + k)) b := by
  induction b with
  | zero => rfl
  | succ b ih => rw [← Nat.add_assoc, cyclesAmid_succ', cyclesAmid_succ', ih]

/-- With no other work these are the cycles of the processor alone. -/
theorem cyclesAmid_id (n : Nat) (m : Machine) : m.cyclesAmid (fun _ b ↦ b) n = m.cycleMany n := by
  induction n generalizing m with
  | zero => rfl
  | succ n ih => exact ih m.cycle

/-- From a well-formed state the next completion comes before the budget is used up. -/
theorem exists_completing (work : Nat → Bus → Bus) (h : m.cpu.IsControlled)
    (hjammed : m.cpu.phase ≠ .jammed) :
    ∃ k < m.cpu.budget, ∃ i, (m.cyclesAmid work k).completing? = some i := by
  -- the induction is on a bound of the budget, which every cycle that completes nothing brings down
  obtain ⟨n, hn⟩ : ∃ n, m.cpu.budget ≤ n := ⟨_, Nat.le_refl _⟩
  induction n generalizing m work with
  | zero => exact absurd (Cpu.budget_pos hjammed) (Nat.not_lt.mpr hn)
  | succ n ih =>
    cases hcompleting : m.completing? with
    | some i => exact ⟨0, Cpu.budget_pos hjammed, i, hcompleting⟩
    | none =>
      obtain ⟨hless, hnext⟩ := Cpu.budget_moves h m.moves_cycle hjammed
        fun i left htransfer hphase ↦ one_lt_of_waiting hcompleting htransfer hphase
      obtain ⟨k, hk, hi⟩ := ih (fun k ↦ work (k + 1)) (m := ⟨m.cycle.cpu, work 0 m.cycle.bus⟩)
        (h.moves m.moves_cycle) hnext (Nat.le_of_succ_le_succ (Nat.le_trans hless hn))
      exact ⟨k + 1, Nat.lt_of_lt_of_le (Nat.succ_lt_succ hk) hless, hi⟩

/-- A jammed processor does nothing but count down its transfer. -/
theorem cyclesAmid_of_jammed (work : Nat → Bus → Bus) (h : m.cpu.IsControlled)
    (hjammed : m.cpu.phase = .jammed) (n : Nat) :
    (m.cyclesAmid work n).cpu.IsControlled ∧ (m.cyclesAmid work n).cpu.phase = .jammed ∧
      (m.cyclesAmid work n).registers = m.registers ∧
      (m.cyclesAmid work n).cpu.transferLeft = m.cpu.transferLeft - n := by
  induction n generalizing m work with
  | zero => exact ⟨h, hjammed, rfl, rfl⟩
  | succ n ih =>
    obtain ⟨hphase, hregisters, hleft⟩ := h.moves_of_jammed hjammed m.moves_cycle
    obtain ⟨hcontrolled, hstill, hsame, hend⟩ := ih (fun k ↦ work (k + 1))
      (m := ⟨m.cycle.cpu, work 0 m.cycle.bus⟩) (h.moves m.moves_cycle) hphase
    refine ⟨hcontrolled, hstill, hsame.trans hregisters, hend.trans ?_⟩
    rw [hleft, Nat.sub_sub, Nat.add_comm]

/-! ## From power-on -/

/-- A machine that has come from power-on by cycles, by resets, and by what happens to the bus apart
from them: interrupts that are asked for, accesses, chips that run, another cartridge. -/
inductive Driven : Machine → Prop where
  | powerOn (tv : Television) (slot : Slot) : Driven (powerOn tv slot)
  | cycle {m : Machine} (h : Driven m) : Driven m.cycle
  | reset {m : Machine} (h : Driven m) (powerCycle : Bool) : Driven (m.resetCpu powerCycle)
  | meanwhile {m : Machine} (h : Driven m) (bus : Bus) : Driven ⟨m.cpu, bus⟩

theorem Driven.isControlled (h : Driven m) : m.cpu.IsControlled := by
  induction h with
  | powerOn tv slot => exact ⟨.fetch, nofun⟩
  | cycle _ ih => exact ih.moves (moves_cycle _)
  | reset _ powerCycle => exact ⟨.stall (Nat.le_refl 7), nofun⟩
  | meanwhile _ bus ih => exact ih

/-- In a machine that has come from power-on the control of the processor is well formed. If it is
not jammed, an instruction completes within 528 cycles, whatever else happens on the bus; if it is,
the registers stand still and a transfer comes to its end. -/
theorem Driven.never_stuck (h : Driven m) :
    m.cpu.IsControlled ∧
      (m.cpu.phase ≠ .jammed → ∀ work, ∃ k < 528, ∃ i,
        (m.cyclesAmid work k).completing? = some i) ∧
      (m.cpu.phase = .jammed → ∀ work n,
        (m.cyclesAmid work n).cpu.phase = .jammed ∧
          (m.cyclesAmid work n).registers = m.registers ∧
          ((m.cyclesAmid work n).cpu.transfer = none ↔ m.cpu.transferLeft ≤ n) ∧
          m.cpu.transferLeft ≤ 513) := by
  have hcontrolled := h.isControlled
  refine ⟨hcontrolled, ?_, ?_⟩
  · intro hjammed work
    obtain ⟨k, hk, hi⟩ := exists_completing work hcontrolled hjammed
    exact ⟨k, Nat.lt_of_lt_of_le hk hcontrolled.budget_le, hi⟩
  · intro hjammed work n
    obtain ⟨hend, hstill, hsame, hleft⟩ := cyclesAmid_of_jammed work hcontrolled hjammed n
    refine ⟨hstill, hsame, ?_, hcontrolled.transferLeft_le⟩
    rw [← hend.transferLeft_eq_zero, hleft]
    exact Nat.sub_eq_zero_iff_le

/-- A console without a cartridge, about to jam after a transfer has been asked for. -/
def jamming : Machine :=
  ⟨(powerOn .ntsc .empty).cpu, ((Bus.powerOn .ntsc .empty).write 0 0x02).write 0x4014 0x02⟩

theorem driven_jamming (n : Nat) : Driven (jamming.cycleMany n) := by
  induction n with
  | zero => exact (Driven.powerOn .ntsc .empty).meanwhile _
  | succ n ih => exact cycleMany_succ' n jamming ▸ ih.cycle

/-- It completes the instruction that jams it, and then only its transfer goes on, to the end. -/
theorem jamming_never_stuck :
    (∃ k < 528, ∃ i, (jamming.cyclesAmid (fun _ ↦ Bus.clockSound) k).completing? = some i) ∧
      (jamming.cycleMany 2).cpu.phase = .jammed ∧ (jamming.cycleMany 2).cpu.transferLeft = 512 ∧
      ∀ n, ((jamming.cycleMany 2).cyclesAmid (fun _ ↦ Bus.clockSound) n).cpu.transfer = none ↔
        512 ≤ n := by
  have hfetch : jamming.cpu.phase ≠ .jammed := nofun
  have hjammed : (jamming.cycleMany 2).cpu.phase = .jammed := by decide +kernel
  have hleft : (jamming.cycleMany 2).cpu.transferLeft = 512 := by decide +kernel
  have hdriven : Driven jamming := driven_jamming 0
  obtain ⟨-, hcompletes, -⟩ := hdriven.never_stuck
  obtain ⟨-, -, hends⟩ := (driven_jamming 2).never_stuck
  refine ⟨hcompletes hfetch _, hjammed, hleft, ?_⟩
  intro n
  rw [← hleft]
  exact (hends hjammed (fun _ ↦ Bus.clockSound) n).2.2.1

end Machine

end Famicom
