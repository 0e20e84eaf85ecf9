import Famicom.Proofs.Machine.Access

/-!
# Counting cycles

What a single cycle does in each phase, and how many cycles pass until the processor is between two
instructions again. A sprite transfer counts `Transfer.left` cycles down and the entry of an
interrupt those of its phase; a jammed processor never gets there.

`Machine.ReachesBoundaryIn m n` says that the next boundary comes after exactly `n` cycles. The main
statements find that `n` for a machine that has just completed an instruction
(`reachesBoundaryIn_of_transfer`, `reachesBoundaryIn_enter`) and show that there is none for a
jammed one (`not_atBoundary_of_jammed`).
-/

namespace Famicom

namespace Cpu

theorem atBoundary_iff {c : Cpu} :
    c.atBoundary = true ↔ c.phase = .fetch ∧ c.transfer = none := by
  simp only [atBoundary, isTransferring, Bool.and_eq_true, beq_iff_eq, Bool.not_eq_true',
    Option.isSome_eq_false_iff, Option.isNone_iff_eq_none]

theorem isJammed_iff {c : Cpu} : c.isJammed = true ↔ c.phase = .jammed := by
  simp only [isJammed, beq_iff_eq]

theorem phase_ne_jammed {c : Cpu} (h : c.isJammed = false) : c.phase ≠ .jammed := by
  intro heq
  rw [isJammed_iff.mpr heq] at h
  exact Bool.noConfusion h

end Cpu

namespace Transfer

/-- The cycles a transfer still takes. -/
def left (t : Transfer) : Nat := t.idle + (steps - t.step)

/-- What a cycle of a transfer does on the bus. -/
inductive Action where
  | wait
  | read (addr : UInt16)
  /-- A write to the register that transfers write to. -/
  | write (value : UInt8)

/-- What the next cycle of a transfer does on the bus. -/
def action (t : Transfer) : Action :=
  if 0 < t.idle then .wait else if t.step % 2 = 0 then .read t.source else .write t.data

/-- What a cycle leaves of a transfer, where `value` is what a read of its source gives. -/
def next (t : Transfer) (value : UInt8) : Option Transfer :=
  if 0 < t.idle then some { t with idle := t.idle - 1 }
  else if t.step + 1 < steps then
    some { t with step := t.step + 1, data := if t.step % 2 = 0 then value else t.data }
  else none

end Transfer

/-- The bus after an action of a transfer. -/
def Bus.perform (b : Bus) : Transfer.Action → Bus
  | .wait => b
  | .read addr => (b.read addr).2
  | .write value => b.write Transfer.target value

namespace Machine

variable {m : Machine}

/-! ## Runs of cycles -/

@[simp] theorem cycleMany_zero (m : Machine) : m.cycleMany 0 = m := rfl

theorem cycleMany_succ (n : Nat) (m : Machine) : m.cycleMany (n + 1) = m.cycle.cycleMany n := rfl

theorem cycleMany_add (a b : Nat) (m : Machine) :
    m.cycleMany (a + b) = (m.cycleMany a).cycleMany b := by
  induction a generalizing m with
  | zero => rw [Nat.zero_add, cycleMany_zero]
  | succ a ih => rw [Nat.succ_add, cycleMany_succ, cycleMany_succ, ih]

theorem cycleMany_succ' (n : Nat) (m : Machine) : m.cycleMany (n + 1) = (m.cycleMany n).cycle := by
  rw [cycleMany_add, cycleMany_succ, cycleMany_zero]

/-! ## One cycle in each phase -/

theorem cycle_of_transfer {t : Transfer} (h : m.cpu.transfer = some t) :
    m.cycle = m.countCycle.stepTransfer t := by
  have hcount : m.countCycle.cpu.transfer = some t := h
  simp only [cycle, hcount]

theorem cycle_of_fetch (htransfer : m.cpu.transfer = none) (hphase : m.cpu.phase = .fetch) :
    m.cycle = m.countCycle.fetch.2.start m.countCycle.fetch.1 := by
  have ht : m.countCycle.cpu.transfer = none := htransfer
  have hp : m.countCycle.cpu.phase = .fetch := hphase
  simp only [cycle, ht, hp]

theorem cycle_of_ne_fetch (htransfer : m.cpu.transfer = none) (hphase : m.cpu.phase ≠ .fetch) :
    m.cycle = m.countCycle.movePhase m.cpu.phase := by
  have ht : m.countCycle.cpu.transfer = none := htransfer
  have hp : m.countCycle.cpu.phase = m.cpu.phase := rfl
  simp only [cycle, ht, hp]

theorem cycle_of_waiting {i : Instruction} {left : Nat} (htransfer : m.cpu.transfer = none)
    (hphase : m.cpu.phase = .execute i left) (hleft : 1 < left) :
    m.cycle = m.countCycle.setPhase (.execute i (left - 1)) := by
  rw [cycle_of_ne_fetch htransfer (by rw [hphase]; exact Phase.noConfusion), hphase, movePhase,
    if_pos hleft]

theorem cycle_of_completing {i : Instruction} {left : Nat} (htransfer : m.cpu.transfer = none)
    (hphase : m.cpu.phase = .execute i left) (hleft : left ≤ 1) :
    m.cycle = m.countCycle.complete i := by
  rw [cycle_of_ne_fetch htransfer (by rw [hphase]; exact Phase.noConfusion), hphase, movePhase,
    if_neg (Nat.not_lt.mpr hleft)]

theorem cycle_of_jammed (htransfer : m.cpu.transfer = none) (hphase : m.cpu.phase = .jammed) :
    m.cycle = m.countCycle := by
  rw [cycle_of_ne_fetch htransfer (by rw [hphase]; exact Phase.noConfusion), hphase, movePhase]

theorem cycle_of_enter {left : Nat} (htransfer : m.cpu.transfer = none)
    (hphase : m.cpu.phase = .enter left) :
    m.cycle = m.countCycle.setPhase (if 1 < left then .enter (left - 1) else .fetch) := by
  rw [cycle_of_ne_fetch htransfer (by rw [hphase]; exact Phase.noConfusion), hphase, movePhase]

theorem cycle_of_stall {left : Nat} (htransfer : m.cpu.transfer = none)
    (hphase : m.cpu.phase = .stall left) :
    m.cycle = m.countCycle.setPhase (if 1 < left then .stall (left - 1) else .fetch) := by
  rw [cycle_of_ne_fetch htransfer (by rw [hphase]; exact Phase.noConfusion), hphase, movePhase]

/-! ## Transfers -/

/-- A cycle of a transfer acts on the bus and leaves the processor where it is. -/
theorem stepTransfer_eq (m : Machine) (t : Transfer) :
    m.stepTransfer t =
      ⟨{ m.cpu with transfer := t.next (m.bus.read t.source).1 }, m.bus.perform t.action⟩ := by
  rw [stepTransfer, Transfer.action, Transfer.next]
  by_cases hidle : 0 < t.idle
  · rw [if_pos hidle, if_pos hidle, if_pos hidle]
    rfl
  · rw [if_neg hidle, if_neg hidle, if_neg hidle]
    by_cases heven : t.step % 2 = 0
    · simp only [heven, if_true]
      rfl
    · simp only [heven, if_false]
      rfl

theorem phase_stepTransfer (m : Machine) (t : Transfer) :
    (m.stepTransfer t).cpu.phase = m.cpu.phase := by
  rw [stepTransfer_eq]

theorem cycles_stepTransfer (m : Machine) (t : Transfer) :
    (m.stepTransfer t).cpu.cycles = m.cpu.cycles := by
  rw [stepTransfer_eq]

/-- A cycle of a transfer brings it one cycle nearer to its end. -/
theorem transfer_stepTransfer (m : Machine) {t : Transfer} (hstep : t.step < Transfer.steps) :
    (t.left = 1 ∧ (m.stepTransfer t).cpu.transfer = none) ∨
      ∃ u : Transfer, (m.stepTransfer t).cpu.transfer = some u ∧ u.step < Transfer.steps ∧
        u.left + 1 = t.left := by
  rw [stepTransfer_eq]
  dsimp only
  rw [Transfer.next]
  by_cases hidle : 0 < t.idle
  · rw [if_pos hidle]
    exact Or.inr ⟨_, rfl, hstep, by simp only [Transfer.left]; omega⟩
  · rw [if_neg hidle]
    by_cases hlast : t.step + 1 < Transfer.steps
    · rw [if_pos hlast]
      exact Or.inr ⟨_, rfl, hlast, by simp only [Transfer.left]; omega⟩
    · rw [if_neg hlast]
      exact Or.inl ⟨by simp only [Transfer.left]; omega, rfl⟩

/-- While a transfer lasts the processor stays in its phase; when it has ended the phase is still
the same. -/
theorem cycleMany_of_transfer {t : Transfer} (h : m.cpu.transfer = some t)
    (hstep : t.step < Transfer.steps) :
    (m.cycleMany t.left).cpu.transfer = none ∧
      (m.cycleMany t.left).cpu.phase = m.cpu.phase ∧
      ∀ j < t.left, (m.cycleMany j).cpu.transfer.isSome = true := by
  -- the induction is on the cycles left, which every cycle brings down by one
  obtain ⟨n, hn⟩ : ∃ n, t.left = n := ⟨_, rfl⟩
  induction n generalizing m t with
  | zero => simp only [Transfer.left] at hn; omega
  | succ n ih =>
    have hcycle := cycle_of_transfer h
    have hphase : m.cycle.cpu.phase = m.cpu.phase := by rw [hcycle, phase_stepTransfer]; rfl
    rw [hn]
    rcases transfer_stepTransfer m.countCycle hstep with ⟨hone, hnone⟩ | ⟨u, hu, hustep, huleft⟩
    · obtain rfl : n = 0 := by omega
      refine ⟨by rw [cycleMany_succ, cycleMany_zero, hcycle, hnone],
        by rw [cycleMany_succ, cycleMany_zero, hphase], fun j hj ↦ ?_⟩
      obtain rfl : j = 0 := by omega
      rw [cycleMany_zero, h]
      rfl
    · rw [← hcycle] at hu
      obtain ⟨hend, hsame, hduring⟩ := ih hu hustep (by omega)
      rw [show u.left = n by omega] at hend hsame hduring
      refine ⟨by rw [cycleMany_succ, hend], by rw [cycleMany_succ, hsame, hphase], fun j hj ↦ ?_⟩
      cases j with
      | zero => rw [cycleMany_zero, h]; rfl
      | succ j => rw [cycleMany_succ]; exact hduring j (by omega)

/-! ## The way to the next boundary -/

/-- The processor is between two instructions after exactly `n` cycles. -/
def ReachesBoundaryIn (m : Machine) (n : Nat) : Prop :=
  (m.cycleMany n).cpu.atBoundary = true ∧ ∀ j < n, (m.cycleMany j).cpu.atBoundary = false

theorem reachesBoundaryIn_zero (h : m.cpu.atBoundary = true) : m.ReachesBoundaryIn 0 :=
  ⟨h, fun _ hj ↦ absurd hj (Nat.not_lt_zero _)⟩

theorem ReachesBoundaryIn.succ {n : Nat} (h : m.cpu.atBoundary = false)
    (hnext : m.cycle.ReachesBoundaryIn n) : m.ReachesBoundaryIn (n + 1) := by
  refine ⟨hnext.1, fun j hj ↦ ?_⟩
  cases j with
  | zero => exact h
  | succ j => exact hnext.2 j (by omega)

/-- The entry of an interrupt takes the cycles that its phase says. -/
theorem reachesBoundaryIn_enter {left : Nat} (htransfer : m.cpu.transfer = none)
    (hphase : m.cpu.phase = .enter (left + 1)) : m.ReachesBoundaryIn (left + 1) := by
  have hnot : m.cpu.atBoundary = false := by
    rw [Bool.eq_false_iff, ne_eq, Cpu.atBoundary_iff, hphase]
    exact fun h ↦ Phase.noConfusion h.1
  have hcycle := cycle_of_enter htransfer hphase
  induction left generalizing m with
  | zero =>
    refine ReachesBoundaryIn.succ hnot (reachesBoundaryIn_zero ?_)
    rw [Cpu.atBoundary_iff, hcycle]
    exact ⟨rfl, htransfer⟩
  | succ left ih =>
    have hnext : m.cycle.cpu.phase = .enter (left + 1) := by
      rw [hcycle, if_pos (by omega)]
      rfl
    have hnone : m.cycle.cpu.transfer = none := by
      rw [hcycle]
      exact htransfer
    refine ReachesBoundaryIn.succ hnot (ih hnone hnext ?_ (cycle_of_enter hnone hnext))
    rw [Bool.eq_false_iff, ne_eq, Cpu.atBoundary_iff, hnext]
    exact fun h ↦ Phase.noConfusion h.1

/-- A transfer comes first, and after it what is left of the phase. -/
theorem reachesBoundaryIn_of_transfer {t : Transfer} {n : Nat} (h : m.cpu.transfer = some t)
    (hstep : t.step < Transfer.steps)
    (hrest : (m.cycleMany t.left).ReachesBoundaryIn n) : m.ReachesBoundaryIn (t.left + n) := by
  obtain ⟨-, -, hduring⟩ := cycleMany_of_transfer h hstep
  refine ⟨by rw [cycleMany_add]; exact hrest.1, ?_⟩
  intro j hj
  rcases Nat.lt_or_ge j t.left with hlt | hge
  · rw [Bool.eq_false_iff, ne_eq, Cpu.atBoundary_iff]
    intro hboundary
    have hsome := hduring j hlt
    rw [hboundary.2] at hsome
    exact Bool.noConfusion hsome
  · obtain ⟨a, rfl⟩ := Nat.exists_eq_add_of_le hge
    rw [cycleMany_add]
    exact hrest.2 a (by omega)

/-! ## A jammed processor -/

theorem phase_cycle_of_jammed (h : m.cpu.phase = .jammed) : m.cycle.cpu.phase = .jammed := by
  cases htransfer : m.cpu.transfer with
  | none => rw [cycle_of_jammed htransfer h]; exact h
  | some t => rw [cycle_of_transfer htransfer, phase_stepTransfer]; exact h

theorem phase_cycleMany_of_jammed (h : m.cpu.phase = .jammed) (n : Nat) :
    (m.cycleMany n).cpu.phase = .jammed := by
  induction n generalizing m with
  | zero => exact h
  | succ n ih => exact ih (phase_cycle_of_jammed h)

theorem not_atBoundary_of_jammed (h : m.cpu.phase = .jammed) (n : Nat) :
    (m.cycleMany n).cpu.atBoundary = false := by
  rw [Bool.eq_false_iff, ne_eq, Cpu.atBoundary_iff, phase_cycleMany_of_jammed h]
  exact fun h ↦ Phase.noConfusion h.1

end Machine

end Famicom
