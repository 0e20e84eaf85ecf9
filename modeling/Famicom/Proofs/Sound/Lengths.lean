import Famicom.Proofs.Sound.Pacing

/-!
# How long a channel sounds

Four of the five channels stop when a length counter has run out. Each channel decodes its own
registers, and the triangle keeps its halt bit in another place than the rest, but what a counter
does is the same for all of them: it takes a length from the last register of its channel while it
is enabled, counts half frames down while it is not halted, and is cleared when a write to the
status register disables it.

`Apu.lengthAfter` says this of one action, for the counter of any channel, and `Apu.length_act`
shows that the channels keep to it. What is enabled and what is halted can then be told from the
last writes alone, whatever came between them (`Apu.IsGated`), and a counter that is not enabled
stands at zero. So the status register never reports a channel that the last write to it left out.
-/

namespace Famicom

/-- The channels that have a length counter. -/
inductive Channel where
  | pulse1
  | pulse2
  | triangle
  | noise
  deriving DecidableEq, Repr

namespace Channel

/-- The channel's bit in the status register. -/
def number : Channel → Nat
  | pulse1 => 0
  | pulse2 => 1
  | triangle => 2
  | noise => 3

/-- The first of the channel's registers, which halts its length counter. -/
def haltRegister : Channel → UInt16
  | pulse1 => 0x4000
  | pulse2 => 0x4004
  | triangle => 0x4008
  | noise => 0x400c

/-- The bit of that register which halts the counter. -/
def haltBit : Channel → Nat
  | triangle => 7
  | _ => 5

/-- The last of the channel's registers, which starts a note. -/
def lengthRegister : Channel → UInt16
  | pulse1 => 0x4003
  | pulse2 => 0x4007
  | triangle => 0x400b
  | noise => 0x400f

theorem toNat_haltRegister (c : Channel) : c.haltRegister.toNat = 0x4000 + 4 * c.number := by
  cases c <;> rfl

theorem toNat_lengthRegister (c : Channel) : c.lengthRegister.toNat = 0x4003 + 4 * c.number := by
  cases c <;> rfl

theorem number_injective : Function.Injective number := by
  intro c d
  cases c <;> cases d <;> decide

theorem number_lt (c : Channel) : c.number < 4 := by cases c <;> decide

end Channel

/-! ## One counter -/

namespace LengthCounter

variable (l : LengthCounter)

/-- A counter that is not enabled stands at zero. -/
def IsClosed (l : LengthCounter) : Prop := l.enabled = false → l.value = 0

variable {l}

theorem isClosed_setEnabled (l : LengthCounter) (enabled : Bool) :
    (l.setEnabled enabled).IsClosed := by
  rintro rfl
  rfl

theorem IsClosed.setHalted (h : l.IsClosed) (halted : Bool) : (l.setHalted halted).IsClosed := h

theorem IsClosed.load (h : l.IsClosed) (value : UInt8) : (l.load value).IsClosed := by
  rw [LengthCounter.load]
  split
  case isTrue henabled => exact fun hclosed ↦ absurd (henabled.symm.trans hclosed) (by decide)
  case isFalse => exact h

theorem IsClosed.clock (h : l.IsClosed) : l.clock.IsClosed := by
  rw [LengthCounter.clock]
  split
  · exact h
  · exact fun hclosed ↦ congrArg (· - 1) (h hclosed)

variable (l)

theorem enabled_load (value : UInt8) : (l.load value).enabled = l.enabled := by
  rw [load]
  split <;> rfl

theorem halted_load (value : UInt8) : (l.load value).halted = l.halted := by
  rw [load]
  split <;> rfl

theorem enabled_clock : l.clock.enabled = l.enabled := by
  rw [clock]
  split <;> rfl

theorem halted_clock : l.clock.halted = l.halted := by
  rw [clock]
  split <;> rfl

end LengthCounter

/-! ## Writes to a channel's own registers -/

section Registers

variable (register : Fin 4) (value : UInt8)

theorem Pulse.length_write (p : Pulse) :
    (p.write register value).length =
      if register.val = 0 then p.length.setHalted (bit value 5)
      else if register.val = 3 then p.length.load value
      else p.length := by
  match register with
  | 0 | 1 | 2 | 3 => rfl

theorem Triangle.length_write (t : Triangle) :
    (t.write register value).length =
      if register.val = 0 then t.length.setHalted (bit value 7)
      else if register.val = 3 then t.length.load value
      else t.length := by
  match register with
  | 0 | 1 | 2 | 3 => rfl

theorem Noise.length_write (n : Noise) :
    (n.write register value).length =
      if register.val = 0 then n.length.setHalted (bit value 5)
      else if register.val = 3 then n.length.load value
      else n.length := by
  match register with
  | 0 | 1 | 2 | 3 => rfl

end Registers

theorem Pulse.length_clockTimer (p : Pulse) : p.clockTimer.length = p.length := by
  unfold clockTimer
  split
  · rfl
  · split <;> rfl

theorem Triangle.length_clockTimer (t : Triangle) : t.clockTimer.length = t.length := by
  unfold clockTimer
  split <;> rfl

theorem Noise.length_clockTimer (n : Noise) : n.clockTimer.length = n.length := by
  unfold clockTimer
  split <;> rfl

namespace Apu

/-- The register that enables the channels, and reports which of them may sound. -/
def statusRegister : UInt16 := 0x4015

/-- The register of the sequencer. -/
def sequencerRegister : UInt16 := 0x4017

/-- The length counter of a channel. -/
def length (a : Apu) : Channel → LengthCounter
  | .pulse1 => a.pulse1.length
  | .pulse2 => a.pulse2.length
  | .triangle => a.triangle.length
  | .noise => a.noise.length

/-- The level of a channel. -/
def level (a : Apu) : Channel → Nat
  | .pulse1 => a.pulse1.output
  | .pulse2 => a.pulse2.output
  | .triangle => a.triangle.output
  | .noise => a.noise.output

/-- The action is a half frame for the channels: by the sequencer, or by a write to its register
that chooses five steps. -/
def isHalfFrame (a : Apu) : Action → Bool
  | .clock => a.sequencer.clock.1.half
  | .write addr value => addr == sequencerRegister && bit value 7
  | _ => false

/-- The byte last written to an address since the last reset, if there was one, after an action.
Before the action it was `last`. -/
def remember (addr : UInt16) (last : Option UInt8) : Action → Option UInt8
  | .write place value => if place = addr then some value else last
  | .reset => none
  | _ => last

/-- The byte that some actions have written last to an address, with no reset after it. -/
def lastWrite (addr : UInt16) (actions : List Action) : Option UInt8 :=
  actions.foldl (remember addr) none

theorem remember_write_self (addr : UInt16) (last : Option UInt8) (value : UInt8) :
    remember addr last (.write addr value) = some value := if_pos rfl

theorem remember_write_of_ne {addr place : UInt16} (h : place ≠ addr) (last : Option UInt8)
    (value : UInt8) : remember addr last (.write place value) = last := if_neg h

/-! ## One action -/

section Step

variable (a : Apu) (c : Channel)

/-- What an action makes of the length counter of a channel. -/
def lengthAfter : Action → LengthCounter
  | .write addr value =>
    if addr = c.haltRegister then (a.length c).setHalted (bit value c.haltBit)
    else if addr = c.lengthRegister then (a.length c).load value
    else if addr = statusRegister then (a.length c).setEnabled (bit value c.number)
    else if a.isHalfFrame (.write addr value) then (a.length c).clock
    else a.length c
  | .reset => {}
  | action => if a.isHalfFrame action then (a.length c).clock else a.length c

theorem length_apply (event : FrameEvent) :
    (a.apply event).length c = if event.half then (a.length c).clock else a.length c := by
  obtain ⟨quarter, half⟩ := event
  cases quarter <;> cases half <;> cases c <;> rfl

theorem length_clockTimers : a.clockTimers.length c = a.length c := by
  cases c with
  | pulse1 => exact a.pulse1.length_clockTimer
  | pulse2 => exact a.pulse2.length_clockTimer
  | triangle => exact a.triangle.length_clockTimer
  | noise => exact a.noise.length_clockTimer

theorem length_sample : a.sample.length c = a.length c := by
  unfold sample
  dsimp only
  split <;> cases c <;> rfl

/-- In a cycle only a half frame concerns the length counters. -/
theorem length_clock :
    a.clock.length c = if a.sequencer.clock.1.half then (a.length c).clock else a.length c := by
  have hsequencer : ({ a with sequencer := a.sequencer.clock.2 } : Apu).length c = a.length c := by
    cases c <;> rfl
  rw [clock, length_sample, length_clockTimers, clockSequencer]
  dsimp only
  rw [length_apply, hsequencer]

/-- The chip after a write to one of the registers of a channel. -/
def writeChannel (channel : Channel) (register : Fin 4) (value : UInt8) : Apu :=
  match channel with
  | .pulse1 => { a with pulse1 := a.pulse1.write register value }
  | .pulse2 => { a with pulse2 := a.pulse2.write register value }
  | .triangle => { a with triangle := a.triangle.write register value }
  | .noise => { a with noise := a.noise.write register value }

theorem length_writeChannel_self (register : Fin 4) (value : UInt8) :
    (a.writeChannel c register value).length c =
      if register.val = 0 then (a.length c).setHalted (bit value c.haltBit)
      else if register.val = 3 then (a.length c).load value
      else a.length c := by
  cases c with
  | pulse1 => exact a.pulse1.length_write register value
  | pulse2 => exact a.pulse2.length_write register value
  | triangle => exact a.triangle.length_write register value
  | noise => exact a.noise.length_write register value

theorem length_writeChannel_of_ne {channel : Channel} (h : channel ≠ c) (register : Fin 4)
    (value : UInt8) : (a.writeChannel channel register value).length c = a.length c := by
  cases channel <;> cases c <;> first | rfl | exact absurd rfl h

/-- Which part of the chip a write goes to: one of the channels, all of them, the sequencer, or
none that has a length counter. -/
theorem write_routes (addr : UInt16) (value : UInt8) :
    (∃ (channel : Channel) (register : Fin 4),
        addr.toNat = 0x4000 + 4 * channel.number + register.val ∧
        a.write addr value = a.writeChannel channel register value) ∨
      (addr.toNat = 0x4015 ∧
        a.write addr value =
          { a with
            pulse1 := a.pulse1.setEnabled (bit value 0)
            pulse2 := a.pulse2.setEnabled (bit value 1)
            triangle := a.triangle.setEnabled (bit value 2)
            noise := a.noise.setEnabled (bit value 3) }) ∨
      (addr.toNat = 0x4017 ∧
        a.write addr value =
          { a with sequencer := (a.sequencer.write value).2 }.apply (a.sequencer.write value).1) ∨
      ((addr.toNat < 0x4000 ∨ 0x4010 ≤ addr.toNat) ∧ addr.toNat ≠ 0x4015 ∧ addr.toNat ≠ 0x4017 ∧
        ∃ delta, a.write addr value = { a with delta }) := by
  have hbelow : addr < 0x4000 ↔ addr.toNat < 0x4000 := UInt16.lt_iff_toNat_lt
  rw [write]
  dsimp only
  by_cases hlow : addr < 0x4000
  · have hbefore := hbelow.mp hlow
    exact Or.inr (Or.inr (Or.inr ⟨by omega, by omega, by omega, a.delta, if_pos hlow⟩))
  have hfrom := hbelow.not.mp hlow
  have hgroup (start : Nat) (hstart : start % 4 = 0) (hge : start ≤ addr.toNat - 0x4000)
      (hlt : addr.toNat - 0x4000 < start + 4) :
      addr.toNat = 0x4000 + start + (low2 (addr.toNat - 0x4000)).val := by
    rw [val_low2]
    omega
  rw [if_neg hlow]
  by_cases hpulse1 : addr.toNat - 0x4000 < 0x04
  · exact Or.inl ⟨.pulse1, _, hgroup 0 rfl (by omega) hpulse1, if_pos hpulse1⟩
  rw [if_neg hpulse1]
  by_cases hpulse2 : addr.toNat - 0x4000 < 0x08
  · exact Or.inl ⟨.pulse2, _, hgroup 4 rfl (by omega) hpulse2, if_pos hpulse2⟩
  rw [if_neg hpulse2]
  by_cases htriangle : addr.toNat - 0x4000 < 0x0c
  · exact Or.inl ⟨.triangle, _, hgroup 8 rfl (by omega) htriangle, if_pos htriangle⟩
  rw [if_neg htriangle]
  by_cases hnoise : addr.toNat - 0x4000 < 0x10
  · exact Or.inl ⟨.noise, _, hgroup 12 rfl (by omega) hnoise, if_pos hnoise⟩
  rw [if_neg hnoise]
  by_cases hdelta : addr.toNat - 0x4000 < 0x14
  · exact Or.inr (Or.inr (Or.inr ⟨by omega, by omega, by omega, _, if_pos hdelta⟩))
  rw [if_neg hdelta]
  by_cases hstatus : addr.toNat - 0x4000 = 0x15
  · exact Or.inr (Or.inl ⟨by omega, if_pos hstatus⟩)
  rw [if_neg hstatus]
  by_cases hsequencer : addr.toNat - 0x4000 = 0x17
  · exact Or.inr (Or.inr (Or.inl ⟨by omega, if_pos hsequencer⟩))
  · exact Or.inr (Or.inr (Or.inr ⟨by omega, by omega, by omega, a.delta, if_neg hsequencer⟩))

theorem isHalfFrame_write_iff (addr : UInt16) (value : UInt8) :
    a.isHalfFrame (.write addr value) = true ↔ addr = sequencerRegister ∧ bit value 7 = true := by
  rw [isHalfFrame, Bool.and_eq_true, beq_iff_eq]

/-- A write elsewhere leaves the length counter. -/
theorem lengthAfter_write_of_ne {addr : UInt16} (hhalt : addr ≠ c.haltRegister)
    (hlength : addr ≠ c.lengthRegister) (hstatus : addr ≠ statusRegister)
    (hsequencer : addr ≠ sequencerRegister) (value : UInt8) :
    a.lengthAfter c (.write addr value) = a.length c := by
  rw [lengthAfter, if_neg hhalt, if_neg hlength, if_neg hstatus,
    if_neg fun h ↦ hsequencer ((a.isHalfFrame_write_iff addr value).mp h).1]

theorem length_write (addr : UInt16) (value : UInt8) :
    (a.write addr value).length c = a.lengthAfter c (.write addr value) := by
  have hhalt : addr = c.haltRegister ↔ addr.toNat = 0x4000 + 4 * c.number := by
    rw [← UInt16.toNat_inj, c.toNat_haltRegister]
  have hlength : addr = c.lengthRegister ↔ addr.toNat = 0x4003 + 4 * c.number := by
    rw [← UInt16.toNat_inj, c.toNat_lengthRegister]
  have hstatus : addr = statusRegister ↔ addr.toNat = 0x4015 := UInt16.toNat_inj.symm
  have hsequencer : addr = sequencerRegister ↔ addr.toNat = 0x4017 := UInt16.toNat_inj.symm
  have hfour := c.number_lt
  rcases a.write_routes addr value with ⟨channel, register, haddr, hwrite⟩ | ⟨haddr, hwrite⟩ |
    ⟨haddr, hwrite⟩ | ⟨haddr, hno, hnone, delta, hwrite⟩ <;> rw [hwrite]
  · -- the registers of a channel lie within four addresses, its own or those of another one
    have hchannel := channel.number_lt
    by_cases hown : channel = c
    · subst hown
      rw [length_writeChannel_self]
      by_cases hfirst : register.val = 0
      · rw [if_pos hfirst, lengthAfter, if_pos (hhalt.mpr (by omega))]
      · rw [if_neg hfirst]
        by_cases hlast : register.val = 3
        · rw [if_pos hlast, lengthAfter, if_neg (hhalt.not.mpr (by omega)),
            if_pos (hlength.mpr (by omega))]
        · rw [if_neg hlast, lengthAfter_write_of_ne] <;>
            simp only [ne_eq, hhalt, hlength, hstatus, hsequencer] <;> omega
    · have hnumber : channel.number ≠ c.number := fun h ↦ hown (Channel.number_injective h)
      rw [length_writeChannel_of_ne a c hown, lengthAfter_write_of_ne] <;>
        simp only [ne_eq, hhalt, hlength, hstatus, hsequencer] <;> omega
  · rw [lengthAfter, if_neg (hhalt.not.mpr (by omega)), if_neg (hlength.not.mpr (by omega)),
      if_pos (hstatus.mpr haddr)]
    cases c <;> rfl
  · have hsame : ({ a with sequencer := (a.sequencer.write value).2 } : Apu).length c =
        a.length c := by cases c <;> rfl
    have hhalf : (a.sequencer.write value).1.half = a.isHalfFrame (.write addr value) := by
      rw [isHalfFrame, hsequencer.mpr haddr, beq_self_eq_true, Bool.true_and, Sequencer.write]
      cases bit value 7 <;> rfl
    rw [length_apply, hsame, hhalf, lengthAfter, if_neg (hhalt.not.mpr (by omega)),
      if_neg (hlength.not.mpr (by omega)), if_neg (hstatus.not.mpr (by omega))]
  · rw [lengthAfter_write_of_ne a c (hhalt.not.mpr (by omega)) (hlength.not.mpr (by omega))
      (hstatus.not.mpr hno) (hsequencer.not.mpr hnone)]
    cases c <;> rfl

/-- **One action.** The length counter of every channel does the same. -/
theorem length_act (action : Action) : (a.act action).length c = a.lengthAfter c action := by
  cases action with
  | clock => exact a.length_clock c
  | write addr value => exact a.length_write c addr value
  | readSamples dest count =>
    obtain ⟨_, hread, -⟩ := a.act_readSamples dest count
    rw [hread]
    cases c <;> rfl
  | readStatus | clearSamples | setSampleRate | reset => cases c <;> rfl

/-- What an action can be to the length counter of a channel: a write to one of three registers, a
reset, or one that neither the status register nor the halt bit is told of. -/
theorem lengthAfter_cases (action : Action) :
    (∃ value, action = .write c.haltRegister value ∧
        a.lengthAfter c action = (a.length c).setHalted (bit value c.haltBit)) ∨
      (∃ value, action = .write c.lengthRegister value ∧
        a.lengthAfter c action = (a.length c).load value) ∨
      (∃ value, action = .write statusRegister value ∧
        a.lengthAfter c action = (a.length c).setEnabled (bit value c.number)) ∨
      (action = .reset ∧ a.lengthAfter c action = {}) ∨
      ((∀ last, remember statusRegister last action = last ∧
          remember c.haltRegister last action = last) ∧
        a.lengthAfter c action =
          if a.isHalfFrame action then (a.length c).clock else a.length c) := by
  cases action with
  | write addr value =>
    rw [lengthAfter]
    by_cases hhalt : addr = c.haltRegister
    · exact Or.inl ⟨value, by rw [hhalt], if_pos hhalt⟩
    rw [if_neg hhalt]
    by_cases hlength : addr = c.lengthRegister
    · exact Or.inr (Or.inl ⟨value, by rw [hlength], if_pos hlength⟩)
    rw [if_neg hlength]
    by_cases hstatus : addr = statusRegister
    · exact Or.inr (Or.inr (Or.inl ⟨value, by rw [hstatus], if_pos hstatus⟩))
    rw [if_neg hstatus]
    exact Or.inr (Or.inr (Or.inr (Or.inr ⟨fun last ↦
      ⟨remember_write_of_ne hstatus last value, remember_write_of_ne hhalt last value⟩, rfl⟩)))
  | reset => exact Or.inr (Or.inr (Or.inr (Or.inl ⟨rfl, rfl⟩)))
  | clock | readStatus | readSamples | clearSamples | setSampleRate =>
    exact Or.inr (Or.inr (Or.inr (Or.inr ⟨fun _ ↦ ⟨rfl, rfl⟩, rfl⟩)))

end Step

/-! ## What is reported and what is heard -/

/-- The status register reports the channels whose counter has not run out. -/
theorem bit_statusByte (a : Apu) (c : Channel) :
    bit a.statusByte c.number = (a.length c).isActive := by
  have hbits : ∀ pulse1 pulse2 triangle noise irq : Bool,
      let byte := UInt8.ofNat (pulse1.toNat + pulse2.toNat * 2 + triangle.toNat * 4 +
        noise.toNat * 8 + irq.toNat * 64)
      bit byte 0 = pulse1 ∧ bit byte 1 = pulse2 ∧ bit byte 2 = triangle ∧ bit byte 3 = noise := by
    decide
  obtain ⟨hpulse1, hpulse2, htriangle, hnoise⟩ := hbits a.pulse1.length.isActive
    a.pulse2.length.isActive a.triangle.length.isActive a.noise.length.isActive a.irqFlag
  cases c with
  | pulse1 => exact hpulse1
  | pulse2 => exact hpulse2
  | triangle => exact htriangle
  | noise => exact hnoise

/-- Where the counter has run out a channel is silent, but for the triangle, which keeps its
level. -/
theorem level_eq_zero {a : Apu} {c : Channel} (hvalue : (a.length c).value = 0)
    (hc : c ≠ .triangle) : a.level c = 0 := by
  have hstill : (a.length c).isActive = false := by
    rw [LengthCounter.isActive, hvalue]
    rfl
  cases c with
  | pulse1 | pulse2 =>
    change Pulse.output _ = 0
    rw [Pulse.output, if_neg]
    exact fun h ↦ absurd ((Bool.and_eq_true_iff.mp h).1.symm.trans hstill) (by decide)
  | triangle => exact absurd rfl hc
  | noise =>
    change Noise.output _ = 0
    rw [Noise.output, if_neg]
    exact fun h ↦ absurd ((Bool.and_eq_true_iff.mp h).1.symm.trans hstill) (by decide)

/-! ## Runs -/

/-- Whether the counter of a channel is enabled or halted is as the bytes say that were written last
to the status register and to the channel's own, and it stands at zero while it is not enabled. -/
structure IsGated (l : LengthCounter) (c : Channel) (status own : Option UInt8) : Prop where
  enabled : l.enabled = status.any (bit · c.number)
  halted : l.halted = own.any (bit · c.haltBit)
  isClosed : l.IsClosed

namespace IsGated

variable {a : Apu} {c : Channel} {status own : Option UInt8}

theorem reset (a : Apu) (c : Channel) : IsGated (a.reset.length c) c none none := by
  cases c <;> exact ⟨rfl, rfl, fun _ ↦ rfl⟩

theorem act (h : IsGated (a.length c) c status own) (action : Action) :
    IsGated ((a.act action).length c) c (remember statusRegister status action)
      (remember c.haltRegister own action) := by
  have hdistinct : c.haltRegister ≠ statusRegister := by cases c <;> decide
  have hlength : c.lengthRegister ≠ statusRegister ∧ c.lengthRegister ≠ c.haltRegister := by
    cases c <;> decide
  rw [length_act]
  rcases a.lengthAfter_cases c action with ⟨value, rfl, hafter⟩ | ⟨value, rfl, hafter⟩ |
    ⟨value, rfl, hafter⟩ | ⟨rfl, hafter⟩ | ⟨hlast, hafter⟩ <;> rw [hafter]
  · rw [remember_write_of_ne hdistinct, remember_write_self]
    exact ⟨h.enabled, rfl, h.isClosed.setHalted _⟩
  · rw [remember_write_of_ne hlength.1, remember_write_of_ne hlength.2]
    exact ⟨(LengthCounter.enabled_load _ _).trans h.enabled,
      (LengthCounter.halted_load _ _).trans h.halted, h.isClosed.load value⟩
  · rw [remember_write_self, remember_write_of_ne hdistinct.symm]
    exact ⟨rfl, h.halted, LengthCounter.isClosed_setEnabled _ _⟩
  · exact ⟨rfl, rfl, fun _ ↦ rfl⟩
  · rw [(hlast status).1, (hlast own).2]
    split
    · exact ⟨(LengthCounter.enabled_clock _).trans h.enabled,
        (LengthCounter.halted_clock _).trans h.halted, h.isClosed.clock⟩
    · exact h

theorem run (h : IsGated (a.length c) c status own) (actions : List Action) :
    IsGated ((a.run actions).length c) c (actions.foldl (remember statusRegister) status)
      (actions.foldl (remember c.haltRegister) own) := by
  induction actions generalizing a status own with
  | nil => exact h
  | cons action rest ih => exact ih (h.act action)

end IsGated

/-! ## The changes of a length -/

/-- The lengths that an action may leave in the counter of a channel. -/
inductive MayLeave (a : Apu) (c : Channel) (action : Action) : Nat → Prop
  /-- Nothing changes. -/
  | same : MayLeave a c action (a.length c).value
  /-- A note is started while the channel is enabled. -/
  | load (value : UInt8) (haction : action = .write c.lengthRegister value)
    (henabled : (a.length c).enabled = true) : MayLeave a c action (LengthCounter.lengthOf value)
  /-- A half frame is counted, while the counter is not halted and has not run out. -/
  | count (left : Nat) (haction : a.isHalfFrame action = true)
    (hhalted : (a.length c).halted = false) (hleft : left + 1 = (a.length c).value) :
    MayLeave a c action left
  /-- The channel is disabled. -/
  | disable (value : UInt8) (haction : action = .write statusRegister value)
    (hbit : bit value c.number = false) : MayLeave a c action 0
  /-- The chip is reset. -/
  | reset (haction : action = .reset) : MayLeave a c action 0

theorem mayLeave_act (a : Apu) (c : Channel) (action : Action) :
    a.MayLeave c action ((a.act action).length c).value := by
  rw [length_act]
  rcases a.lengthAfter_cases c action with ⟨value, rfl, hafter⟩ | ⟨value, rfl, hafter⟩ |
    ⟨value, rfl, hafter⟩ | ⟨rfl, hafter⟩ | ⟨-, hafter⟩ <;> rw [hafter]
  · exact .same
  · rw [LengthCounter.load]
    split
    case isTrue henabled => exact .load value rfl henabled
    case isFalse => exact .same
  · rw [LengthCounter.setEnabled]
    dsimp only
    split
    case isTrue => exact .same
    case isFalse hbit => exact .disable value rfl (eq_false_of_ne_true hbit)
  · exact .reset rfl
  · split
    case isFalse => exact .same
    case isTrue haction =>
      rw [LengthCounter.clock]
      split
      case isTrue => exact .same
      case isFalse hhalted =>
        -- a counter that has run out stays at zero, which is no change
        cases hvalue : (a.length c).value with
        | zero =>
          have hsame : a.MayLeave c action (a.length c).value := .same
          rwa [hvalue] at hsame
        | succ left => exact .count left haction (eq_false_of_ne_true hhalted) hvalue.symm

/-- **Enables and lengths.** After a reset, as at power-on, and any actions that follow, a channel
is enabled if the last write to the status register has enabled it. The register reports it only
then, and a channel that is disabled has no length left and, unless it is the triangle, is silent.
Nothing but a note started while enabled, a half frame counted while not halted, or a write that
disables the channel changes its length, and a read of the status register changes no channel. -/
theorem lengths_correct (b : Apu) (actions : List Action) (c : Channel) :
    powerOn b.television = (powerOn b.television).reset ∧
      (bit (b.reset.run actions).readStatus.1 c.number = true →
        (lastWrite statusRegister actions).any (bit · c.number) = true) ∧
      ((b.reset.run actions).length c).enabled =
        (lastWrite statusRegister actions).any (bit · c.number) ∧
      ((b.reset.run actions).length c).halted =
        (lastWrite c.haltRegister actions).any (bit · c.haltBit) ∧
      (((b.reset.run actions).length c).enabled = false →
        ((b.reset.run actions).length c).value = 0 ∧
          (c ≠ .triangle → (b.reset.run actions).level c = 0)) ∧
      (∀ action,
        (b.reset.run (actions ++ [action])).length c =
          (b.reset.run actions).lengthAfter c action ∧
        (b.reset.run actions).MayLeave c action
          ((b.reset.run (actions ++ [action])).length c).value) ∧
      ((b.reset.run actions).readStatus.2.pulse1 = (b.reset.run actions).pulse1 ∧
        (b.reset.run actions).readStatus.2.pulse2 = (b.reset.run actions).pulse2 ∧
        (b.reset.run actions).readStatus.2.triangle = (b.reset.run actions).triangle ∧
        (b.reset.run actions).readStatus.2.noise = (b.reset.run actions).noise ∧
        (b.reset.run actions).readStatus.2.delta = (b.reset.run actions).delta) := by
  have hgated := (IsGated.reset b c).run actions
  refine ⟨rfl, ?reported, hgated.enabled, hgated.halted, ?silent, fun action ↦ ?changes,
    rfl, rfl, rfl, rfl, rfl⟩
  case reported =>
    intro hreported
    rw [readStatus, bit_statusByte, LengthCounter.isActive, decide_eq_true_iff] at hreported
    refine hgated.enabled.symm.trans (eq_true_of_ne_false fun hclosed ↦ ?_)
    exact absurd (hgated.isClosed hclosed) (Nat.ne_of_gt hreported)
  case silent =>
    exact fun hclosed ↦ ⟨hgated.isClosed hclosed, level_eq_zero (hgated.isClosed hclosed)⟩
  case changes =>
    have hrun : b.reset.run (actions ++ [action]) = (b.reset.run actions).act action :=
      List.foldl_concat ..
    rw [hrun]
    exact ⟨length_act _ c action, mayLeave_act _ c action⟩

end Apu

end Famicom
