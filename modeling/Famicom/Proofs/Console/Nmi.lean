import Famicom.Proofs.Console.Reachable
import Famicom.Proofs.Machine.Entry

/-!
# No unmaskable interrupt is lost or doubled

The picture chip asks for the unmaskable interrupt where its output rises, and the processor takes
the request back where it enters the interrupt. Between the two there is one latch. A second rise
while the latch is set would be lost, so what has to be shown is that there is none.

## Why two rises never meet

The output is the flag of the vertical blank under the enable bit. While the latch is set no
instruction has completed since the rise, because a completion would have accepted the request. So
the enable bit has not been written, and the output can only have fallen with the flag; it can rise
again in the next vertical blank only (`Console.IsLatched.level`). But no processor waits that long
between two completions: the dots since the start of the vertical blank and the dots that the cycles
of the wait will take stay together below a bound (`Console.IsLatched.budget`), which is smaller
than a frame. A cycle that is not a completion brings the wait down as fast as the dots go up.

## Counting

`Console.rises` counts the rises of the output in a run of dots, as the dots sample it, and
`Console.entries` the cycles that take the request from the latch and leave the program through the
vector of the interrupt (`Machine.EntersNmi`). In every dot the entries and what is left in the
latch make up for the rise and what was in the latch before (`Console.IsLatched.stepDot`), and so
they do in every run (`Console.IsLatched.stepDots`).
-/

namespace Famicom

namespace Console

/-! ## Runs of dots -/

theorem stepDotsFrom_snd (ended n : Nat) (c : Console) :
    (stepDotsFrom ended n c).2 = (c.stepDots n).2 := by
  have hany (ended other : Nat) (c : Console) :
      (stepDotsFrom ended n c).2 = (stepDotsFrom other n c).2 := by
    induction n generalizing ended other c with
    | zero => rfl
    | succ n ih => exact ih _ _ _
  exact hany ended 0 c

@[simp] theorem stepDots_zero (c : Console) : (c.stepDots 0).2 = c := rfl

theorem stepDots_succ (n : Nat) (c : Console) :
    (c.stepDots (n + 1)).2 = (c.stepDot.2.stepDots n).2 :=
  stepDotsFrom_snd _ n _

theorem stepDots_add (a b : Nat) (c : Console) :
    (c.stepDots (a + b)).2 = ((c.stepDots a).2.stepDots b).2 := by
  induction a generalizing c with
  | zero => rw [Nat.zero_add, stepDots_zero]
  | succ a ih => rw [Nat.succ_add, stepDots_succ, stepDots_succ, ih]

theorem stepDots_succ' (n : Nat) (c : Console) :
    (c.stepDots (n + 1)).2 = (c.stepDots n).2.stepDot.2 := stepDots_add n 1 c

/-- The flag of the vertical blank under bit 7 of the control byte, as the next dot samples them. -/
def sampled (c : Console) : Bool :=
  let p := c.machine.bus.clockPicture.2.ppu
  p.vblank && bit p.controls.control 7

/-- How often the output rises in `n` dots, if the sample before them was `before`. -/
def rises (before : Bool) : Nat → Console → Nat
  | 0, _ => 0
  | n + 1, c => (c.sampled && !before).toNat + rises c.sampled n c.stepDot.2

/-- How many of some machines enter the unmaskable interrupt in their next cycle. -/
def entriesOf (starts : List Machine) : Nat := (starts.filter fun m ↦ m.EntersNmi).length

theorem entriesOf_cons (m : Machine) (rest : List Machine) :
    entriesOf (m :: rest) = (decide m.EntersNmi).toNat + entriesOf rest := by
  unfold entriesOf
  rw [List.filter_cons]
  cases decide m.EntersNmi with
  | true => rw [if_pos rfl, List.length_cons, Bool.toNat_true, Nat.add_comm]
  | false => rw [if_neg Bool.false_ne_true, Bool.toNat_false, Nat.zero_add]

/-- How often the unmaskable interrupt is entered in `n` dots. -/
def entries : Nat → Console → Nat
  | 0, _ => 0
  | n + 1, c => entriesOf c.cycled + entries n c.stepDot.2

end Console

/-! ## What an access leaves of the picture chip -/

/-- What the processor cannot reach: the beam, the sample of the output, and the latch. It can take
back the flag of the vertical blank. -/
structure Bus.KeepsNmi (b c : Bus) : Prop where
  beam : c.ppu.beam = b.ppu.beam
  nmiLevel : c.ppu.nmiLevel = b.ppu.nmiLevel
  nmi : c.lines.nmi = b.lines.nmi
  vblank : c.ppu.vblank = true → b.ppu.vblank = true

namespace Bus

theorem KeepsNmi.refl (b : Bus) : b.KeepsNmi b := ⟨rfl, rfl, rfl, id⟩

theorem KeepsNmi.read {b c : Bus} (h : b.KeepsNmi c) (addr : UInt16) :
    b.KeepsNmi (c.read addr).2 := by
  obtain ⟨controls, vblank, hread, -, -, hvblank⟩ := c.ppu_read addr
  refine ⟨?_, ?_, (c.nmi_read addr).trans h.nmi, fun hset ↦ h.vblank ?_⟩
  · rw [hread, ← h.beam]
  · rw [hread, ← h.nmiLevel]
  · rw [hread] at hset
    exact hvblank hset

theorem KeepsNmi.write {b c : Bus} (h : b.KeepsNmi c) (addr : UInt16) (value : UInt8) :
    b.KeepsNmi (c.write addr value) := by
  obtain ⟨controls, palette, oam, hwrite, -⟩ := c.ppu_write addr value
  refine ⟨?_, ?_, (c.nmi_write addr value).trans h.nmi, fun hset ↦ h.vblank ?_⟩
  · rw [hwrite, ← h.beam]
  · rw [hwrite, ← h.nmiLevel]
  · rw [hwrite] at hset
    exact hset

theorem AccessesTo.keepsNmi {b c : Bus} (h : b.AccessesTo c) : b.KeepsNmi c :=
  h.preserves (P := b.KeepsNmi) (fun _ addr hc ↦ hc.read addr)
    (fun _ addr value hc ↦ hc.write addr value) (.refl b)

theorem ReadsTo.control_eq {b c : Bus} (h : b.ReadsTo c) :
    c.ppu.controls.control = b.ppu.controls.control := by
  refine h.preserves (P := fun c ↦ c.ppu.controls.control = b.ppu.controls.control)
    (fun c addr hc ↦ ?_) rfl
  obtain ⟨controls, vblank, hread, hcontrol, -⟩ := c.ppu_read addr
  rw [hread]
  exact hcontrol.trans hc

end Bus

namespace Machine

variable {m : Machine}

/-- Outside of completions nothing switches the interrupt on or off. -/
theorem Idles.control_eq {b c : Bus} (h : Idles b c) :
    c.ppu.controls.control = b.ppu.controls.control := by
  rcases h with hreads | ⟨value, rfl⟩
  · exact hreads.control_eq
  · obtain ⟨controls, palette, oam, hwrite, hcontrol⟩ := b.ppu_write Transfer.target value
    rw [hwrite]
    exact hcontrol (by decide)

theorem keepsNmi_settled (m : Machine) (i : Instruction) :
    m.bus.KeepsNmi (m.settled i).bus := by
  obtain ⟨b, haccesses, hbus⟩ := m.bus_settled i
  obtain ⟨hbeam, hlevel, hnmi, hvblank⟩ := haccesses.keepsNmi
  rw [hbus]
  exact ⟨hbeam, hlevel, hnmi, hvblank⟩

/-- The cycle of the sound chip leaves the picture chip and the latch. -/
theorem bus_sharedCycle (m : Machine) :
    m.sharedCycle.bus.ppu = m.cycle.bus.ppu ∧
      m.sharedCycle.bus.lines.nmi = m.cycle.bus.lines.nmi :=
  ⟨rfl, Bus.nmi_clockSound _⟩

/-- The processor moves neither the beam nor the sample of the output. -/
theorem ppu_sharedCycle (m : Machine) :
    m.sharedCycle.bus.ppu.beam = m.bus.ppu.beam ∧
      m.sharedCycle.bus.ppu.nmiLevel = m.bus.ppu.nmiLevel := by
  rw [m.bus_sharedCycle.1]
  rcases m.cycle_cases with ⟨-, -, hidles⟩ | ⟨i, -, hcases⟩
  · exact ⟨hidles.accesses.keepsNmi.beam, hidles.accesses.keepsNmi.nmiLevel⟩
  · obtain ⟨hbeam, hlevel, -, -⟩ := m.keepsNmi_settled i
    rcases hcases with ⟨-, -, hcycle⟩ | ⟨-, -, hcycle⟩ <;> rw [hcycle]
    · exact ⟨hbeam, hlevel⟩
    · cases m.entering? with
      | none => exact ⟨hbeam, hlevel⟩
      | some interrupt =>
        obtain ⟨ram, fault, henter⟩ := (m.settled i).bus_enter interrupt
        dsimp only
        rw [henter]
        exact ⟨hbeam, hlevel⟩

theorem ppu_runCycles (n : Nat) (m : Machine) :
    (Console.runCycles n m).bus.ppu.beam = m.bus.ppu.beam ∧
      (Console.runCycles n m).bus.ppu.nmiLevel = m.bus.ppu.nmiLevel := by
  induction n generalizing m with
  | zero => exact ⟨rfl, rfl⟩
  | succ n ih =>
    rw [Console.runCycles_succ, (ih _).1, (ih _).2]
    exact m.ppu_sharedCycle

theorem IsPrompt.sharedCycle (h : m.IsPrompt) : m.sharedCycle.IsPrompt :=
  ⟨h.cycle.step_lt, h.cycle.wait_le⟩

theorem jammed_runCycles (h : m.cpu.phase = .jammed) (n : Nat) :
    (Console.runCycles n m).cpu.phase = .jammed := by
  induction n generalizing m with
  | zero => exact h
  | succ n ih => exact ih (phase_cycle_of_jammed h)

end Machine

/-! ## The latch while it is set -/

namespace Television

/-- The dots that the longest wait may still take when the vertical blank ends, in units of one
`denominator`-th of a cycle. -/
def latchBudget (tv : Television) : Nat :=
  tv.cyclesPerDot.numerator * Beam.blankEnd tv +
    tv.cyclesPerDot.denominator * Machine.longestWait

/-- The latch is empty long before the vertical blank starts again. -/
theorem latchBudget_lt (tv : Television) :
    tv.cyclesPerDot.denominator + tv.latchBudget <
      tv.cyclesPerDot.numerator * (341 * (tv.lines - 1)) := by
  cases tv <;> decide

theorem denominator_pos (tv : Television) : 0 < tv.cyclesPerDot.denominator := by
  cases tv <;> decide

end Television

namespace Machine

/-- What holds of a machine with `credit` on its clock, which is the time since the last cycle that
was due: the processor is prompt, the vertical blank is in time, and while the latch is set the
output has not been sampled low, and the dots since the vertical blank and those of the wait are
within the budget. -/
structure IsLatched (tv : Television) (credit : Nat) (m : Machine) : Prop where
  prompt : m.IsPrompt
  television : m.bus.ppu.beam.television = tv
  onFrame : m.bus.ppu.beam.IsOnFrame
  blank : m.bus.ppu.BlankInTime
  level : m.bus.lines.nmi = true → m.bus.ppu.nmiOutput = true → m.bus.ppu.nmiLevel = true
  age : m.bus.lines.nmi = true → 3 ≤ m.bus.ppu.beam.blankAge
  budget : m.bus.lines.nmi = true →
    tv.cyclesPerDot.numerator * m.bus.ppu.beam.blankAge +
        tv.cyclesPerDot.denominator * m.wait ≤
      credit + tv.latchBudget

namespace IsLatched

variable {tv : Television} {credit : Nat} {m : Machine}

/-- A machine whose latch is empty has nothing to keep but the vertical blank. -/
theorem of_empty {n : Machine} (h : m.IsLatched tv credit) (hprompt : n.IsPrompt)
    (hkeeps : m.bus.ppu.beam = n.bus.ppu.beam ∧
      (n.bus.ppu.vblank = true → m.bus.ppu.vblank = true))
    (hempty : n.bus.lines.nmi = false) (left : Nat) : n.IsLatched tv left where
  prompt := hprompt
  television := by rw [← hkeeps.1]; exact h.television
  onFrame := by rw [← hkeeps.1]; exact h.onFrame
  blank := fun hvblank ↦ by rw [← hkeeps.1]; exact h.blank (hkeeps.2 hvblank)
  level := fun hset ↦ absurd (hempty.symm.trans hset) Bool.false_ne_true
  age := fun hset ↦ absurd (hempty.symm.trans hset) Bool.false_ne_true
  budget := fun hset ↦ absurd (hempty.symm.trans hset) Bool.false_ne_true

/-- A cycle that completes nothing pays for itself with the wait. -/
theorem sharedCycle_of_not_completing (h : m.IsLatched tv credit)
    (hnone : m.completing? = none) (hjammed : m.cpu.phase ≠ .jammed)
    (hcredit : tv.cyclesPerDot.denominator ≤ credit) :
    m.sharedCycle.IsLatched tv (credit - tv.cyclesPerDot.denominator) ∧
      m.sharedCycle.bus.lines.nmi = m.bus.lines.nmi := by
  have hidles := m.idles_cycle hnone
  obtain ⟨hbeam, hlevel, hnmi, hvblank⟩ := hidles.accesses.keepsNmi
  obtain ⟨hppu, hlatch⟩ := m.bus_sharedCycle
  have hwait : m.sharedCycle.wait + 1 ≤ m.wait := wait_cycle hnone h.prompt hjammed
  have hset : m.sharedCycle.bus.lines.nmi = m.bus.lines.nmi := hlatch.trans hnmi
  refine ⟨⟨h.prompt.sharedCycle, ?_, ?_, ?_, ?_, ?_, ?_⟩, hset⟩
  · rw [hppu, hbeam]
    exact h.television
  · rw [hppu, hbeam]
    exact h.onFrame
  · rw [hppu]
    unfold Ppu.BlankInTime
    rw [hbeam]
    exact fun hup ↦ h.blank (hvblank hup)
  · rw [hset, hppu, hlevel]
    intro hlatched houtput
    refine h.level hlatched ?_
    unfold Ppu.nmiOutput Controls.nmiEnabled at houtput ⊢
    rw [hidles.control_eq, Bool.and_eq_true] at houtput
    rw [hvblank houtput.1, houtput.2]
    rfl
  · rw [hset, hppu, hbeam]
    exact h.age
  · rw [hset, hppu, hbeam]
    intro hlatched
    have hbudget := h.budget hlatched
    have hscaled := Nat.mul_le_mul_left tv.cyclesPerDot.denominator hwait
    rw [Nat.mul_succ] at hscaled
    omega

/-- A completion accepts what is in the latch and leaves it empty. -/
theorem sharedCycle_of_completing (h : m.IsLatched tv credit) {i : Instruction}
    (hsome : m.completing? = some i) (hjam : i.operation ≠ .jam) (left : Nat) :
    m.sharedCycle.IsLatched tv left ∧ m.sharedCycle.bus.lines.nmi = false ∧
      (m.entering? = some .nmi ↔ m.bus.lines.nmi = true) := by
  obtain ⟨hbeam, -, hnmi, hvblank⟩ := m.keepsNmi_settled i
  obtain ⟨hppu, hlatch⟩ := m.bus_sharedCycle
  have hlook := entering?_of_completing hsome hjam
  have hcycle := cycle_of_entering hsome hjam
  -- the lines are looked at after the effect, but no effect reaches the latch
  have haccepted : m.entering? = some .nmi ↔ m.bus.lines.nmi = true := by
    rw [hlook, ← hnmi]
    exact accepted?_eq_nmi_iff
  have hbus : m.cycle.bus.ppu = (m.settled i).bus.ppu ∧ m.cycle.bus.lines.nmi = false := by
    rw [hcycle]
    cases hentering : m.entering? with
    | none =>
      refine ⟨rfl, ?_⟩
      rw [hnmi, ← Bool.not_eq_true, ← haccepted, hentering]
      exact (Option.some_ne_none _).symm
    | some interrupt =>
      obtain ⟨ram, fault, henter⟩ := (m.settled i).bus_enter interrupt
      rw [henter]
      refine ⟨rfl, ?_⟩
      cases interrupt with
      | nmi => rfl
      | irq =>
        change (m.settled i).bus.lines.nmi = false
        rw [hnmi, ← Bool.not_eq_true, ← haccepted, hentering]
        exact fun heq ↦ Interrupt.noConfusion (Option.some.inj heq)
  refine ⟨h.of_empty h.prompt.sharedCycle ?_ (hlatch.trans hbus.2) left, hlatch.trans hbus.2,
    haccepted⟩
  rw [hppu, hbus.1, hbeam]
  exact ⟨rfl, hvblank⟩

/-- A cycle of a processor that has not jammed keeps the books: it enters the interrupt exactly when
it empties the latch. -/
theorem sharedCycle (h : m.IsLatched tv credit) (hjammed : m.sharedCycle.cpu.phase ≠ .jammed)
    (hcredit : tv.cyclesPerDot.denominator ≤ credit) :
    m.sharedCycle.IsLatched tv (credit - tv.cyclesPerDot.denominator) ∧
      (decide m.EntersNmi).toNat + m.sharedCycle.bus.lines.nmi.toNat =
        m.bus.lines.nmi.toNat := by
  simp only [m.entersNmi_iff]
  have hbefore : m.cpu.phase ≠ .jammed := fun heq ↦ hjammed (phase_cycle_of_jammed heq)
  rcases m.cycle_cases with ⟨hnone, hentering, -⟩ | ⟨i, hsome, ⟨-, -, hcycle⟩ | ⟨hjam, -, -⟩⟩
  · obtain ⟨hlatched, hset⟩ := h.sharedCycle_of_not_completing hnone hbefore hcredit
    refine ⟨hlatched, ?_⟩
    rw [hentering, hset, decide_eq_false (Option.some_ne_none _).symm, Bool.toNat_false,
      Nat.zero_add]
  · refine absurd ?_ hjammed
    change m.cycle.cpu.phase = .jammed
    rw [hcycle, phase_setPhase]
  · obtain ⟨hlatched, hempty, hiff⟩ := h.sharedCycle_of_completing hsome hjam
      (credit - tv.cyclesPerDot.denominator)
    refine ⟨hlatched, ?_⟩
    rw [hempty, Bool.toNat_false, Nat.add_zero]
    simp only [hiff, Bool.decide_eq_true]

/-- The cycles that are due keep the books. -/
theorem runCycles {n : Nat} (h : m.IsLatched tv credit)
    (hjammed : (Console.runCycles n m).cpu.phase ≠ .jammed)
    (hcredit : tv.cyclesPerDot.denominator * n ≤ credit) :
    (Console.runCycles n m).IsLatched tv (credit - tv.cyclesPerDot.denominator * n) ∧
      Console.entriesOf (Console.startsOf n m) + (Console.runCycles n m).bus.lines.nmi.toNat =
        m.bus.lines.nmi.toNat := by
  induction n generalizing m credit with
  | zero => exact ⟨h, Nat.zero_add _⟩
  | succ n ih =>
    rw [Nat.mul_succ] at hcredit
    -- a jammed processor stays so, hence it has not jammed on the way either
    have hnext : m.sharedCycle.cpu.phase ≠ .jammed :=
      fun heq ↦ hjammed (jammed_runCycles heq n)
    obtain ⟨hlatched, hone⟩ := h.sharedCycle hnext (by omega)
    obtain ⟨hend, hrest⟩ := ih hlatched hjammed (by omega)
    refine ⟨?_, ?_⟩
    · rw [Nat.sub_sub] at hend
      rw [Nat.mul_succ, Nat.add_comm (tv.cyclesPerDot.denominator * n)]
      exact hend
    · rw [← hone, ← hrest, ← Nat.add_assoc, Console.startsOf, Console.entriesOf_cons,
        Console.runCycles_succ]

/-- The beam does not come to the next vertical blank with the latch set. -/
theorem line_ne (h : m.IsLatched tv credit) (hcredit : credit < tv.cyclesPerDot.denominator)
    (hset : m.bus.lines.nmi = true) : m.bus.ppu.beam.line ≠ 240 := by
  intro hline
  have hbudget := h.budget hset
  have hlate := Nat.mul_le_mul_left tv.cyclesPerDot.numerator (Beam.blankEnd_lt_blankAge hline)
  have hbound := tv.latchBudget_lt
  rw [h.television] at hlate
  omega

/-- While the latch is set the output does not rise. -/
theorem not_rises (h : m.IsLatched tv credit) (hset : m.bus.lines.nmi = true)
    (hlevel : (m.bus.ppu.updateStatus.vblank && m.bus.ppu.controls.nmiEnabled) = true) :
    m.bus.ppu.nmiLevel = true := by
  rw [Bool.and_eq_true] at hlevel
  refine h.level hset ?_
  rw [Ppu.nmiOutput, Ppu.vblank_of_updateStatus (h.age hset) hlevel.1, hlevel.2]
  rfl

/-- A dot after which the latch is set: the dots go up by one at most. -/
theorem budget_clockPicture (h : m.IsLatched tv credit)
    (hcredit : credit < tv.cyclesPerDot.denominator) (hset : m.bus.lines.nmi = true) :
    let beam := (m.bus.ppu.beam.advance m.bus.ppu.controls.rendering).2
    3 ≤ beam.blankAge ∧
      tv.cyclesPerDot.numerator * beam.blankAge + tv.cyclesPerDot.denominator * m.wait ≤
        credit + tv.cyclesPerDot.numerator + tv.latchBudget := by
  have hage := h.age hset
  have hbudget := h.budget hset
  rcases Beam.blankAge_advance h.onFrame m.bus.ppu.controls.rendering with
    ⟨hline, -⟩ | ⟨-, -, hsame⟩ | hnext
  · exact absurd hline (h.line_ne hcredit hset)
  · dsimp only
    rw [hsame]
    exact ⟨hage, by omega⟩
  · dsimp only
    rw [hnext, Nat.mul_succ]
    exact ⟨by omega, by omega⟩

/-- A dot that sets the latch does so in the vertical blank, with all of the budget left. -/
theorem budget_of_vblank (h : m.IsLatched tv credit) {n : Machine} (hwait : n.wait = m.wait)
    (htelevision : n.bus.ppu.beam.television = tv) (hblank : n.bus.ppu.BlankInTime)
    (hvblank : n.bus.ppu.vblank = true) :
    3 ≤ n.bus.ppu.beam.blankAge ∧
      tv.cyclesPerDot.numerator * n.bus.ppu.beam.blankAge +
          tv.cyclesPerDot.denominator * n.wait ≤ tv.latchBudget := by
  obtain ⟨hthree, hend⟩ := hblank hvblank
  rw [htelevision] at hend
  refine ⟨hthree, Nat.add_le_add (Nat.mul_le_mul_left _ hend) (Nat.mul_le_mul_left _ ?_)⟩
  rw [hwait]
  exact h.prompt.wait_le

/-- The dot of the picture chip keeps the books too: the latch is set exactly by a rise, and a rise
never finds it set. -/
theorem clockPicture (h : m.IsLatched tv credit) (hcredit : credit < tv.cyclesPerDot.denominator) :
    (Machine.mk m.cpu m.bus.clockPicture.2).IsLatched tv
        (credit + tv.cyclesPerDot.numerator) ∧
      m.bus.clockPicture.2.ppu.nmiLevel = m.bus.clockPicture.2.ppu.nmiOutput ∧
      m.bus.clockPicture.2.lines.nmi.toNat =
        (m.bus.clockPicture.2.ppu.nmiOutput && !m.bus.ppu.nmiLevel).toNat +
          m.bus.lines.nmi.toNat := by
  obtain ⟨⟨v, hit, overflow, selected, latch, shifters, frame, htick⟩, hnmi, -⟩ :=
    m.bus.ppu.tick_eq m.bus.slot.readPpu
  have hblank := h.blank.tick h.onFrame m.bus.slot.readPpu
  have hppu : m.bus.clockPicture.2.ppu = (m.bus.ppu.tick m.bus.slot.readPpu).ppu := rfl
  have hbeam : m.bus.clockPicture.2.ppu.beam =
      (m.bus.ppu.beam.advance m.bus.ppu.controls.rendering).2 := by rw [hppu, htick]
  have htelevision : m.bus.clockPicture.2.ppu.beam.television = tv := by
    rw [hbeam, Beam.television_advance]
    exact h.television
  have hlevel : m.bus.clockPicture.2.ppu.nmiLevel = m.bus.clockPicture.2.ppu.nmiOutput := by
    rw [hppu, htick]
    rfl
  have houtput : m.bus.clockPicture.2.ppu.nmiOutput =
      (m.bus.ppu.updateStatus.vblank && m.bus.ppu.controls.nmiEnabled) := by
    rw [hppu, htick]
    rfl
  have hlines : m.bus.clockPicture.2.lines =
      if (m.bus.ppu.tick m.bus.slot.readPpu).nmi then m.bus.lines.requestNmi
      else m.bus.lines := rfl
  rw [hnmi, ← houtput] at hlines
  have hframe : m.bus.clockPicture.2.ppu.beam.IsOnFrame := by
    rw [hbeam]
    exact h.onFrame.advance _
  have hprompt : (Machine.mk m.cpu m.bus.clockPicture.2).IsPrompt :=
    ⟨h.prompt.step_lt, h.prompt.wait_le⟩
  cases hrise : m.bus.clockPicture.2.ppu.nmiOutput && !m.bus.ppu.nmiLevel with
  | true =>
    rw [hrise, if_pos rfl] at hlines
    rw [Bool.and_eq_true, Bool.not_eq_true'] at hrise
    -- with the latch set the last sample was high, and this would be no rise
    have hempty : m.bus.lines.nmi = false := by
      rw [← Bool.not_eq_true]
      intro hset
      have hup := h.not_rises hset (houtput.symm.trans hrise.1)
      exact Bool.false_ne_true (hrise.2.symm.trans hup)
    have hvblank : m.bus.clockPicture.2.ppu.vblank = true := (Bool.and_eq_true_iff.mp hrise.1).1
    obtain ⟨hage, hbudget⟩ := h.budget_of_vblank
      (n := Machine.mk m.cpu m.bus.clockPicture.2) rfl htelevision hblank hvblank
    refine ⟨⟨hprompt, htelevision, hframe, hblank, fun _ _ ↦ hlevel.trans hrise.1, fun _ ↦ hage,
      fun _ ↦ Nat.le_trans hbudget (Nat.le_add_left _ _)⟩, hlevel, ?_⟩
    rw [hlines, hempty]
    rfl
  | false =>
    rw [hrise, if_neg Bool.false_ne_true] at hlines
    refine ⟨⟨hprompt, htelevision, hframe, hblank, fun _ hup ↦ hlevel.trans hup,
      fun hset ↦ ?_, fun hset ↦ ?_⟩, hlevel, ?_⟩
    · change m.bus.clockPicture.2.lines.nmi = true at hset
      rw [hlines] at hset
      rw [hbeam]
      exact (h.budget_clockPicture hcredit hset).1
    · change m.bus.clockPicture.2.lines.nmi = true at hset
      rw [hlines] at hset
      rw [hbeam]
      exact (h.budget_clockPicture hcredit hset).2
    · rw [hlines, Bool.toNat_false, Nat.zero_add]

end IsLatched

end Machine

/-! ## Runs -/

namespace Console

/-- The clock keeps the ratio of the standard, and the beam belongs to it. -/
structure IsTimed (c : Console) : Prop where
  ratio : c.clock.ratio = c.television.cyclesPerDot
  beam : c.machine.bus.ppu.beam.television = c.television

/-- What a run of dots keeps, on the way from one completion to the next and through every vertical
blank. -/
structure IsLatched (c : Console) : Prop extends c.IsTimed where
  accumulator_lt : c.clock.accumulator < c.television.cyclesPerDot.denominator
  machine : c.machine.IsLatched c.television c.clock.accumulator

variable {c : Console}

/-- In every dot the entries and what is left in the latch make up for the rise and what was in the
latch before. -/
theorem IsLatched.stepDot (h : c.IsLatched)
    (hjammed : c.stepDot.2.cpu.phase ≠ .jammed) :
    c.stepDot.2.IsLatched ∧
      c.stepDot.2.machine.bus.ppu.nmiLevel = c.sampled ∧
      entriesOf c.cycled + c.stepDot.2.machine.bus.lines.nmi.toNat =
        (c.sampled && !c.machine.bus.ppu.nmiLevel).toNat + c.machine.bus.lines.nmi.toNat := by
  have hratio := h.ratio
  obtain ⟨hpictured, hlevel, hset⟩ := h.machine.clockPicture h.accumulator_lt
  have hdue : c.television.cyclesPerDot.denominator * c.clock.tick.1 ≤
      c.clock.accumulator + c.television.cyclesPerDot.numerator := by
    rw [← hratio]
    exact Nat.mul_div_le _ _
  have hleft : c.clock.tick.2.accumulator =
      c.clock.accumulator + c.television.cyclesPerDot.numerator -
        c.television.cyclesPerDot.denominator * c.clock.tick.1 := by
    rw [← hratio]
    exact Nat.mod_eq_sub_mul_div
  obtain ⟨hrun, hbooks⟩ := hpictured.runCycles (n := c.clock.tick.1) hjammed hdue
  rw [← hleft] at hrun
  have haccumulator : c.clock.tick.2.accumulator < c.television.cyclesPerDot.denominator := by
    rw [← hratio]
    exact Nat.mod_lt _ (by rw [hratio]; exact c.television.denominator_pos)
  refine ⟨⟨⟨hratio, hrun.television⟩, haccumulator, hrun⟩, ?_, ?_⟩
  · rw [machine_stepDot, (Machine.ppu_runCycles _ _).2]
    exact hlevel
  · rw [machine_stepDot]
    exact hbooks.trans hset

theorem jammed_stepDot (h : c.cpu.phase = .jammed) : c.stepDot.2.cpu.phase = .jammed :=
  Machine.jammed_runCycles (m := c.pictured) h _

theorem jammed_stepDots (h : c.cpu.phase = .jammed) (n : Nat) :
    (c.stepDots n).2.cpu.phase = .jammed := by
  induction n generalizing c with
  | zero => exact h
  | succ n ih => rw [stepDots_succ]; exact ih (jammed_stepDot h)

/-- A processor that has not jammed in the end has not jammed on the way. -/
theorem not_jammed_of_le {j n : Nat} (hle : j ≤ n)
    (hjammed : (c.stepDots n).2.cpu.phase ≠ .jammed) : (c.stepDots j).2.cpu.phase ≠ .jammed := by
  obtain ⟨k, rfl⟩ := Nat.exists_eq_add_of_le hle
  rw [stepDots_add] at hjammed
  exact fun heq ↦ hjammed (jammed_stepDots heq k)

/-- A rise finds the latch empty. -/
theorem IsLatched.empty_of_rise (h : c.IsLatched) (hbefore : c.machine.bus.ppu.nmiLevel = false)
    (hrise : c.sampled = true) : c.machine.bus.lines.nmi = false := by
  obtain ⟨-, -, hset⟩ := h.machine.clockPicture h.accumulator_lt
  have hone : (c.machine.bus.clockPicture.2.ppu.nmiOutput &&
      !c.machine.bus.ppu.nmiLevel).toNat = 1 := by
    rw [show c.machine.bus.clockPicture.2.ppu.nmiOutput = true from hrise, hbefore]
    rfl
  have hle := Bool.toNat_le c.machine.bus.clockPicture.2.lines.nmi
  cases hnmi : c.machine.bus.lines.nmi with
  | false => rfl
  | true =>
    rw [hone, hnmi, Bool.toNat_true] at hset
    omega

/-- The books of a run, which stays on the way. -/
theorem IsLatched.stepDots (h : c.IsLatched) {n : Nat}
    (hjammed : (c.stepDots n).2.cpu.phase ≠ .jammed) :
    (c.stepDots n).2.IsLatched ∧
      entries n c + (c.stepDots n).2.machine.bus.lines.nmi.toNat =
        rises c.machine.bus.ppu.nmiLevel n c + c.machine.bus.lines.nmi.toNat := by
  induction n generalizing c with
  | zero => exact ⟨h, rfl⟩
  | succ n ih =>
    rw [stepDots_succ] at hjammed ⊢
    obtain ⟨hnext, hlevel, hdot⟩ := h.stepDot fun heq ↦ hjammed (jammed_stepDots heq n)
    obtain ⟨hend, hrest⟩ := ih hnext hjammed
    -- the sample of this dot is what the next one is compared with
    rw [hlevel] at hrest
    refine ⟨hend, ?_⟩
    rw [entries, rises]
    omega

/-! ## After a reset -/

theorem isTimed_reset (h : c.IsTimed) (powerCycle : Bool) : (c.reset powerCycle).IsTimed := by
  obtain ⟨_, _, _, _, _, hreset⟩ := c.reset_eq powerCycle
  rw [hreset]
  exact ⟨h.ratio, h.beam⟩

/-- A reset empties the latch and starts both clocks. -/
theorem isLatched_reset (h : c.IsTimed) (powerCycle : Bool) :
    (c.reset powerCycle).IsLatched ∧
      (c.reset powerCycle).machine.bus.lines.nmi = false ∧
      (c.reset powerCycle).machine.bus.ppu.nmiLevel = false := by
  have htimed := isTimed_reset h powerCycle
  obtain ⟨_, _, _, _, _, hreset⟩ := c.reset_eq powerCycle
  have hlines := Beam.television_lines c.machine.bus.ppu.beam.television
  rw [hreset] at htimed ⊢
  refine ⟨⟨htimed, c.television.denominator_pos, ?_, h.beam, ?_, ?_, ?_, ?_, ?_⟩, rfl, rfl⟩
  · exact ⟨fun t ht ↦ absurd ht (Option.some_ne_none t).symm, Nat.le_of_ble_eq_true rfl⟩
  · refine ⟨Int.le_refl _, ?_, Nat.zero_lt_succ _⟩
    rw [Beam.lastLine_eq]
    change -1 ≤ (c.machine.bus.ppu.beam.television.lines : Int) - 2
    omega
  · exact fun hvblank ↦ absurd hvblank Bool.false_ne_true
  · exact fun hset ↦ absurd hset Bool.false_ne_true
  · exact fun hset ↦ absurd hset Bool.false_ne_true
  · exact fun hset ↦ absurd hset Bool.false_ne_true

theorem isTimed_stepDot (h : c.IsTimed) : c.stepDot.2.IsTimed := by
  refine ⟨h.ratio, ?_⟩
  rw [machine_stepDot, (Machine.ppu_runCycles _ _).1, television_stepDot, ← h.beam, pictured,
    Bus.beam_clockPicture]
  exact Beam.television_advance _ _

theorem Reachable.isTimed (h : Reachable c) : c.IsTimed := by
  refine h.invariant (fun tv ↦ isTimed_reset ⟨rfl, rfl⟩ true) (fun c hc ↦ isTimed_stepDot hc)
    (fun c powerCycle hc ↦ isTimed_reset hc powerCycle)
    (fun c slot hc ↦
      isTimed_reset (c := c.modifyBus fun b ↦ { b with slot }) ⟨hc.ratio, hc.beam⟩ true)
    (fun c addr hc ↦ ⟨hc.ratio, ?_⟩) (fun c pads hc ↦ ⟨hc.ratio, hc.beam⟩)
  change (c.machine.bus.read addr).2.ppu.beam.television = _
  rw [Bus.beam_read]
  exact hc.beam

/-- A console that has just been reset, by hand or by a power cycle. -/
inductive Restarted : Console → Prop where
  | powerOn (tv : Television) : Restarted (powerOn tv)
  | reset {c : Console} (h : Reachable c) (powerCycle : Bool) : Restarted (c.reset powerCycle)
  | insert {c d : Console} {bytes : Array UInt8} (h : Reachable c) (hd : c.insert bytes = .ok d) :
    Restarted d
  | eject {c : Console} (h : Reachable c) : Restarted c.eject

theorem Restarted.eq_reset (h : Restarted c) :
    ∃ d powerCycle, IsTimed d ∧ c = d.reset powerCycle := by
  have hslot {c : Console} (hc : Reachable c) (slot : Slot) :
      ∃ d powerCycle, IsTimed d ∧ c.replaceSlot slot = d.reset powerCycle :=
    ⟨c.modifyBus fun b ↦ { b with slot }, true, ⟨hc.isTimed.ratio, hc.isTimed.beam⟩, rfl⟩
  cases h with
  | powerOn tv => exact ⟨_, true, ⟨rfl, rfl⟩, rfl⟩
  | reset hc powerCycle => exact ⟨_, powerCycle, hc.isTimed, rfl⟩
  | insert hc hd =>
    obtain ⟨slot, rfl⟩ := eq_replaceSlot_of_insert hd
    exact hslot hc slot
  | eject hc => exact hslot hc .empty

theorem Restarted.reachable (h : Restarted c) : Reachable c := by
  cases h with
  | powerOn tv => exact .powerOn tv
  | reset hc powerCycle => exact .reset hc powerCycle
  | insert hc hd => exact .insert hc hd
  | eject hc => exact .eject hc

/-- After a reset the latch is empty, and the output has been sampled low. -/
theorem Restarted.isLatched (h : Restarted c) :
    c.IsLatched ∧ c.machine.bus.lines.nmi = false ∧ c.machine.bus.ppu.nmiLevel = false := by
  obtain ⟨d, powerCycle, htimed, rfl⟩ := h.eq_reset
  exact isLatched_reset htimed powerCycle

end Console

end Famicom
