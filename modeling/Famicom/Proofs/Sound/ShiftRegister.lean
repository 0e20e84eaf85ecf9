import Famicom.Proofs.Sound.Frequency
import Mathlib.Dynamics.PeriodicPts.Lemmas

/-!
# The shift register of the noise channel

A shift drops the lowest bit of the register and takes in, at the top, the exclusive or of that bit
with another one, the tap:

```text
bit 14  ←  bit 0  xor  bit tap,        bit i  ←  bit (i + 1).
```

Nothing is lost in this. The tap itself is not dropped, it has only moved one place down, and
together with the bit that came in it gives the dropped bit back (`Noise.previousRegister`). So in
either mode a shift permutes the registers of fifteen bits, and as it keeps the empty register apart
from the others, it permutes these among themselves. A register that a channel can have therefore
comes back after some number of shifts, at most as many as there are registers, with nothing before
the first repetition.

The mode may be switched between any two shifts. That cannot lock the register up, since it is not
empty before the switch and neither mode empties it. While the mode stays, the register is told by
the number of shifts alone, whatever else happens to the channel (`Noise.register_run`).
-/

namespace Famicom

namespace Noise

/-! ## A shift undone -/

/-- The bit of the register that is mixed with the lowest one. -/
def tap (short : Bool) : Nat := if short then 6 else 1

/-- The bit that a shift has dropped: the one that came in, without the tap. -/
def droppedBit (short : Bool) (register : Nat) : Bool :=
  xor (register.testBit 14) (register.testBit (tap short - 1))

/-- The register one step back. -/
def previousRegister (short : Bool) (register : Nat) : Nat :=
  register % 0x4000 * 2 + (droppedBit short register).toNat

variable {short : Bool} {register : Nat}

theorem tap_bounds (short : Bool) : 0 < tap short ∧ tap short ≤ 14 := by
  cases short <;> decide

/-- The bits of a register after a shift. -/
theorem testBit_nextRegister (short : Bool) (hlt : register < 0x8000) {i : Nat} (hi : i ≤ 14) :
    (nextRegister short register).testBit i =
      if i = 14 then feedback short register else register.testBit (i + 1) := by
  have hlow : register / 2 < Nat.pow 2 14 := by
    change register / 2 < 0x4000
    omega
  have hsplit : nextRegister short register =
      Nat.pow 2 14 * (feedback short register).toNat + register / 2 := by
    rw [nextRegister, Nat.add_comm, Nat.mul_comm]
  rw [hsplit]
  refine (Nat.testBit_two_pow_mul_add _ hlow i).trans ?_
  by_cases hin : i = 14
  · subst hin
    rw [if_neg (Nat.lt_irrefl 14), if_pos rfl, Nat.sub_self, Nat.testBit_zero]
    cases feedback short register <;> rfl
  · rw [if_pos (Nat.lt_of_le_of_ne hi hin), if_neg hin, Nat.testBit_div_two]

theorem droppedBit_nextRegister (short : Bool) (hlt : register < 0x8000) :
    droppedBit short (nextRegister short register) = register.testBit 0 := by
  obtain ⟨hpos, hle⟩ := tap_bounds short
  have htap : (nextRegister short register).testBit (tap short - 1) =
      register.testBit (tap short) := by
    rw [testBit_nextRegister short hlt (by omega), if_neg (by omega), Nat.sub_add_cancel hpos]
  have hin : (nextRegister short register).testBit 14 =
      xor (register.testBit 0) (register.testBit (tap short)) :=
    testBit_nextRegister short hlt (Nat.le_refl 14)
  rw [droppedBit, htap, hin, Bool.xor_assoc, Bool.xor_self, Bool.xor_false]

theorem previousRegister_nextRegister (short : Bool) (hlt : register < 0x8000) :
    previousRegister short (nextRegister short register) = register := by
  have hlow : nextRegister short register % 0x4000 = register / 2 := by
    rw [nextRegister, Nat.add_mul_mod_self_right]
    exact Nat.mod_eq_of_lt (by omega)
  have hlowest : (register.testBit 0).toNat = register % 2 := by
    rw [Nat.toNat_testBit, Nat.pow_zero, Nat.div_one]
  rw [previousRegister, droppedBit_nextRegister short hlt, hlow, hlowest, Nat.mul_comm]
  exact Nat.div_add_mod register 2

theorem injOn_nextRegister (short : Bool) :
    Set.InjOn (nextRegister short) {register | register < 0x8000} :=
  Set.LeftInvOn.injOn fun _ hlt ↦ previousRegister_nextRegister short hlt

/-! ## Coming back -/

/-- The registers that are not empty. -/
def nonemptyRegisters : Finset Nat := (Finset.range 0x8000).erase 0

theorem mem_nonemptyRegisters_iff :
    register ∈ nonemptyRegisters ↔ 0 < register ∧ register < 0x8000 := by
  rw [nonemptyRegisters, Finset.mem_erase, Finset.mem_range, Nat.pos_iff_ne_zero]

theorem card_nonemptyRegisters : nonemptyRegisters.card = 0x7fff := by
  rw [nonemptyRegisters, Finset.card_erase_of_mem (Finset.mem_range.mpr (Nat.zero_lt_succ _)),
    Finset.card_range]

theorem mapsTo_nextRegister (short : Bool) :
    Set.MapsTo (nextRegister short) nonemptyRegisters nonemptyRegisters := by
  intro register hmem
  obtain ⟨hpos, hlt⟩ := mem_nonemptyRegisters_iff.mp hmem
  exact mem_nonemptyRegisters_iff.mpr (nextRegister_range short hpos hlt)

/-- A shift among the registers that are not empty. -/
def permute (short : Bool) : nonemptyRegisters → nonemptyRegisters :=
  (mapsTo_nextRegister short).restrict

theorem permute_injective (short : Bool) : Function.Injective (permute short) :=
  (mapsTo_nextRegister short).restrict_inj.mpr
    ((injOn_nextRegister short).mono fun _ hmem ↦ (mem_nonemptyRegisters_iff.mp hmem).2)

theorem semiconj_permute (short : Bool) :
    Function.Semiconj Subtype.val (permute short) (nextRegister short) := fun _ ↦ rfl

/-- A register that is not empty comes back, after no more shifts than there are such registers. -/
theorem exists_period (short : Bool) (hpos : 0 < register) (hlt : register < 0x8000) :
    ∃ period, 0 < period ∧ period ≤ 0x7fff ∧
      Function.IsPeriodicPt (nextRegister short) period register := by
  obtain ⟨start, rfl⟩ : ∃ start : nonemptyRegisters, start.val = register :=
    ⟨⟨register, mem_nonemptyRegisters_iff.mpr ⟨hpos, hlt⟩⟩, rfl⟩
  -- An injection of a finite set into itself brings every element back.
  have hperiodic := (permute_injective short).mem_periodicPts start
  refine ⟨Function.minimalPeriod (permute short) start,
    Function.minimalPeriod_pos_of_mem_periodicPts hperiodic, ?_,
    (Function.isPeriodicPt_minimalPeriod _ start).map (semiconj_permute short)⟩
  calc Function.minimalPeriod (permute short) start
    _ ≤ Fintype.card nonemptyRegisters := Function.minimalPeriod_le_card
    _ = 0x7fff := by rw [Fintype.card_coe, card_nonemptyRegisters]

/-! ## While the mode stays -/

/-- The event leaves the mode as it is. Only the third register holds the mode. -/
def KeepsMode (short : Bool) (event : ChannelEvent) : Prop :=
  ∀ register value, event = .write register value → register.val = 2 → bit value 7 = short

/-- The shifts that an event makes: one, if it finds the timer at zero. -/
def shiftsAt (n : Noise) : ChannelEvent → Nat
  | .timer => if n.timer = 0 then 1 else 0
  | _ => 0

/-- The shifts that some events make. -/
def shifts (n : Noise) : List ChannelEvent → Nat
  | [] => 0
  | event :: rest => (n.act event).shifts rest + n.shiftsAt event

variable {n : Noise}

theorem short_act {event : ChannelEvent} (h : KeepsMode n.short event) :
    (n.act event).short = n.short := by
  cases event with
  | write register value =>
    change (n.write register value).short = n.short
    unfold write
    split
    case h_3 => exact h _ value rfl rfl
    all_goals rfl
  | timer =>
    change n.clockTimer.short = n.short
    unfold clockTimer
    split <;> rfl
  | enable | envelope | length | sweep => rfl

theorem register_act (n : Noise) (event : ChannelEvent) :
    (n.act event).register = (nextRegister n.short)^[n.shiftsAt event] n.register := by
  cases event with
  | write register value =>
    change (n.write register value).register = n.register
    unfold write
    split <;> rfl
  | timer =>
    change n.clockTimer.register = _
    unfold clockTimer shiftsAt
    split <;> rfl
  | enable | envelope | length | sweep => rfl

theorem register_run {events : List ChannelEvent} (h : ∀ event ∈ events, KeepsMode n.short event) :
    (n.run events).register = (nextRegister n.short)^[n.shifts events] n.register := by
  induction events generalizing n with
  | nil => rfl
  | cons event rest ih =>
    obtain ⟨hfirst, hrest⟩ := List.forall_mem_cons.mp h
    have hmode := short_act hfirst
    rw [← hmode] at hrest
    change ((n.act event).run rest).register = _
    rw [ih hrest, hmode, register_act, shifts, Function.iterate_add_apply]

/-- The register moves within the time of the longest period. -/
theorem InRange.exists_moved (h : n.InRange) :
    ∃ k ≤ 4068, (Noise.clockTimer^[k] n).register ≠ n.register := by
  obtain ⟨k, hk, hdue⟩ := h.exists_isDue
  obtain ⟨-, hpos, hlt, -⟩ : (Noise.clockTimer^[k] n).InRange :=
    Function.Iterate.rec InRange h (fun _ h ↦ h.clockTimer) k
  -- Either it has moved before the timer is loaded, or the shift at the load moves it.
  by_cases hstill : (Noise.clockTimer^[k] n).register = n.register
  · refine ⟨k + 1, hk, ?_⟩
    rw [Function.iterate_succ_apply', clockTimer_of_isDue hdue, ← hstill]
    exact nextRegister_ne _ hpos hlt
  · exact ⟨k, Nat.le_of_lt hk, hstill⟩

/-- The register of a noise channel is never empty and never leaves its fifteen bits, whatever has
happened to the channel, and it moves again within the time of the longest period. No two registers
are shifted to the same one. So in either mode the shifts from where the channel is repeat from the
start, with a period no greater than the number of registers; and while the mode stays, they are
what the channel goes through, whatever else happens to it. -/
theorem never_locks_up (tv : Television) (events : List ChannelEvent) :
    let n := Noise.run { television := tv } events
    (1 ≤ n.register ∧ n.register ≤ 0x7fff) ∧
      (∃ k ≤ 4068, (Noise.clockTimer^[k] n).register ≠ n.register) ∧
      (∀ short : Bool, Set.InjOn (nextRegister short) {register | register < 0x8000}) ∧
      (∀ short : Bool, ∃ period, 0 < period ∧ period ≤ 0x7fff ∧
        ∀ k, (nextRegister short)^[k + period] n.register = (nextRegister short)^[k] n.register) ∧
      ∀ later : List ChannelEvent, (∀ event ∈ later, KeepsMode n.short event) →
        (n.run later).register = (nextRegister n.short)^[n.shifts later] n.register := by
  intro n
  have hrange : n.InRange := (InRange.fresh tv).run events
  refine ⟨⟨hrange.register_pos, Nat.le_of_lt_succ hrange.register_lt⟩, hrange.exists_moved,
    injOn_nextRegister, ?period, fun later ↦ register_run⟩
  case period =>
    intro short
    obtain ⟨period, hpos, hle, hperiod⟩ :=
      exists_period short hrange.register_pos hrange.register_lt
    refine ⟨period, hpos, hle, fun k ↦ ?_⟩
    rw [Function.iterate_add_apply, hperiod.eq]

/-- The register that a shift could empty has a lone bit, at its lower end. Met in the short mode, the
bit comes back at the top, and the rate may change meanwhile. -/
theorem never_locks_up_loneBit :
    let n := Noise.run { television := .ntsc } [.write 2 0x80]
    let later : List ChannelEvent := [.timer, .write 2 0x8f, .timer]
    (∀ event ∈ later, KeepsMode n.short event) ∧ n.short = true ∧ n.register = 1 ∧
      n.shifts later = 1 ∧ (n.run later).register = 0x4000 := by
  intro n later
  have hkeeps : ∀ event ∈ later, KeepsMode n.short event := by
    rintro event hmem register value rfl -
    obtain ⟨-, rfl⟩ : register = 2 ∧ value = 0x8f := by simpa [later] using hmem
    rfl
  obtain ⟨-, -, -, -, hrun⟩ := never_locks_up .ntsc [.write 2 0x80]
  exact ⟨hkeeps, rfl, rfl, rfl, (hrun later hkeeps).trans (by decide)⟩

end Noise

end Famicom
