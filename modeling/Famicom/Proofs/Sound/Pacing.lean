import Mathlib.Logic.Function.Iterate
import Famicom.Proofs.Safety.Bus

/-!
# The pace of the samples

The pacer adds the sample rate with every cycle and takes the frequency of the processor off with
every sample, at most once in a cycle. While the rate is not above the frequency nothing is lost by
that, and the remainder that is carried makes the pace exact: with `r` the rate and `f` the
frequency,

```text
f · samples + phase  =  clocks · r,      phase  <  f,
```

so after any number of cycles the samples are the quotient and the phase is the remainder
(`Apu.Restarted.decimates`). Writes, reads of the status register and whoever takes samples out of
the queue change nothing about it.

Above the frequency one sample in a cycle is not enough. The phase then grows by `r - f` with every
cycle, passes the frequency, and in the end leaves its register, however little the rate is too
high (`Apu.paces_iff`). So the rates that are safe for every run are those up to the frequency.
-/

namespace Famicom

/-! ## Pushing into a bounded queue -/

namespace SampleQueue

variable {α : Type} {q : SampleQueue α}

theorem pushAll_append (q : SampleQueue α) (samples more : List α) :
    q.pushAll (samples ++ more) = (q.pushAll samples).pushAll more := List.foldl_append ..

/-- One sample more, up to the capacity. -/
theorem size_push (hpos : 0 < q.capacity) (hsize : q.size ≤ q.capacity) (sample : α) :
    (q.push sample).size = min q.capacity (q.size + 1) := by
  rw [← length_toList, toList_push, List.length_append, List.length_singleton]
  split
  · rw [List.length_tail, length_toList]
    omega
  · rw [length_toList]
    omega

theorem size_pushAll (hpos : 0 < q.capacity) (hsize : q.size ≤ q.capacity) (samples : List α) :
    (q.pushAll samples).size = min q.capacity (q.size + samples.length) := by
  induction samples generalizing q with
  | nil => exact (Nat.min_eq_right hsize).symm
  | cons sample rest ih =>
    have hpush := size_push hpos hsize sample
    have hsame := q.capacity_push sample
    change ((q.push sample).pushAll rest).size = _
    rw [ih (by omega) (by omega), hpush, hsame, List.length_cons]
    omega

end SampleQueue

/-! ## The pacer -/

namespace SamplePacer

variable {p : SamplePacer} {frequency : Nat}

/-- The phase has reached the frequency and a sample is due, or it goes on. -/
theorem clock_cases (p : SamplePacer) (frequency : Nat) :
    ∃ fault, fault = (p.fault || phaseLimit ≤ p.phase + p.rate) ∧
      (frequency ≤ p.phase + p.rate ∧
          p.clock frequency = (true, { p with phase := p.phase + p.rate - frequency, fault }) ∨
        p.phase + p.rate < frequency ∧
          p.clock frequency = (false, { p with phase := p.phase + p.rate, fault })) := by
  refine ⟨_, rfl, ?_⟩
  rw [clock]
  by_cases hdue : frequency ≤ p.phase + p.rate
  · exact Or.inl ⟨hdue, if_pos hdue⟩
  · exact Or.inr ⟨Nat.lt_of_not_le hdue, if_neg hdue⟩

@[simp] theorem rate_clock (p : SamplePacer) (frequency : Nat) :
    (p.clock frequency).2.rate = p.rate := by
  obtain ⟨_, -, ⟨-, h⟩ | ⟨-, h⟩⟩ := p.clock_cases frequency <;> rw [h]

/-- The pacer after `n` cycles. -/
def clockMany (frequency n : Nat) (p : SamplePacer) : SamplePacer :=
  (fun p ↦ (clock p frequency).2)^[n] p

theorem clockMany_succ' (frequency n : Nat) (p : SamplePacer) :
    p.clockMany frequency (n + 1) = ((p.clockMany frequency n).clock frequency).2 :=
  Function.iterate_succ_apply' ..

/-- The samples taken and the phase make up for the cycles. -/
structure IsPaced (frequency clocks samples : Nat) (p : SamplePacer) : Prop where
  phase_lt : p.phase < frequency
  balance : frequency * samples + p.phase = clocks * p.rate

/-- What is taken off with a sample is what the sample stands for. -/
theorem IsPaced.clock {clocks samples : Nat} (h : p.IsPaced frequency clocks samples)
    (hrate : p.rate ≤ frequency) :
    (p.clock frequency).2.IsPaced frequency (clocks + 1)
      (samples + (p.clock frequency).1.toNat) := by
  obtain ⟨hphase, hbalance⟩ := h
  obtain ⟨fault, -, ⟨hdue, hclock⟩ | ⟨hgoes, hclock⟩⟩ := p.clock_cases frequency <;> rw [hclock]
  · refine ⟨?_, ?_⟩
    · change p.phase + p.rate - frequency < frequency
      omega
    · change frequency * (samples + 1) + (p.phase + p.rate - frequency) = (clocks + 1) * p.rate
      rw [Nat.mul_succ, Nat.succ_mul, ← hbalance]
      omega
  · refine ⟨hgoes, ?_⟩
    change frequency * samples + (p.phase + p.rate) = (clocks + 1) * p.rate
    rw [Nat.succ_mul, ← hbalance, Nat.add_assoc]

/-- The quotient has been taken, and the remainder is left. -/
theorem IsPaced.eq_div_mod {clocks samples : Nat} (h : p.IsPaced frequency clocks samples) :
    samples = clocks * p.rate / frequency ∧ p.phase = clocks * p.rate % frequency := by
  obtain ⟨hphase, hbalance⟩ := h
  have hpos := Nat.zero_lt_of_lt hphase
  obtain ⟨hdiv, hmod⟩ :=
    (Nat.div_mod_unique hpos).mpr ⟨(Nat.add_comm _ _).trans hbalance, hphase⟩
  exact ⟨hdiv.symm, hmod.symm⟩

/-- A pacer that is safe stays so. -/
theorem IsSound.clockMany (h : p.IsSound frequency) (hfrequency : frequency < 0x1000000) (n : Nat) :
    (p.clockMany frequency n).IsSound frequency := by
  induction n generalizing p with
  | zero => exact h
  | succ n ih => exact ih (h.clock hfrequency)

/-- Above the frequency a sample is due in every cycle, and the phase still grows. -/
theorem phase_clockMany (hrate : frequency ≤ p.rate) (n : Nat) :
    (p.clockMany frequency n).phase = p.phase + n * (p.rate - frequency) ∧
      (p.clockMany frequency n).rate = p.rate := by
  induction n with
  | zero => exact ⟨(by rw [Nat.zero_mul]; rfl), rfl⟩
  | succ n ih =>
    obtain ⟨hphase, hsame⟩ := ih
    rw [clockMany_succ', rate_clock]
    refine ⟨?_, hsame⟩
    obtain ⟨fault, -, ⟨-, hclock⟩ | ⟨hgoes, -⟩⟩ := (p.clockMany frequency n).clock_cases frequency
    · rw [hclock, Nat.succ_mul]
      dsimp only
      rw [hphase, hsame]
      omega
    · omega

/-- Above the frequency the phase leaves its register with a cycle that can be told beforehand. -/
theorem fault_clockMany (hrate : frequency ≤ p.rate) (hfault : p.fault = false) (n : Nat) :
    (p.clockMany frequency n).fault = true ↔
      ∃ k < n, phaseLimit ≤ p.phase + k * (p.rate - frequency) + p.rate := by
  induction n with
  | zero =>
    refine ⟨fun h ↦ absurd (hfault.symm.trans h) Bool.false_ne_true, ?_⟩
    rintro ⟨k, hk, -⟩
    exact absurd hk (Nat.not_lt_zero k)
  | succ n ih =>
    obtain ⟨hphase, hsame⟩ := phase_clockMany hrate n
    obtain ⟨fault, hlatch, hclock⟩ := (p.clockMany frequency n).clock_cases frequency
    have hnext : (p.clockMany frequency (n + 1)).fault = fault := by
      rw [clockMany_succ']
      obtain ⟨-, h⟩ | ⟨-, h⟩ := hclock <;> rw [h]
    rw [hnext, hlatch, hphase, hsame, Bool.or_eq_true, ih, decide_eq_true_eq]
    constructor
    · rintro (⟨k, hk, hlimit⟩ | hlimit)
      · exact ⟨k, Nat.lt_succ_of_lt hk, hlimit⟩
      · exact ⟨n, Nat.lt_succ_self n, hlimit⟩
    · rintro ⟨k, hk, hlimit⟩
      rcases Nat.lt_succ_iff_lt_or_eq.mp hk with hbefore | rfl
      · exact Or.inl ⟨k, hbefore, hlimit⟩
      · exact Or.inr hlimit

end SamplePacer

/-! ## What happens to the chip -/

namespace Apu

/-- What can happen to the sound chip. -/
inductive Action where
  | clock
  | write (addr : UInt16) (value : UInt8)
  | readStatus
  | readSamples (dest : List Sample) (count : Nat)
  | clearSamples
  | setSampleRate (rate : Nat)
  | reset

namespace Action

/-- The action is a cycle. -/
def isClock : Action → Bool
  | clock => true
  | _ => false

/-- The action does not start the pace anew. -/
def keepsPace : Action → Bool
  | setSampleRate _ | reset => false
  | _ => true

/-- The action takes nothing out of the queue, and does not start the pace anew. -/
def keepsQueue : Action → Bool
  | clock | write _ _ | readStatus => true
  | _ => false

end Action

/-- The chip after an action. A request for samples that is refused changes nothing. -/
def act (a : Apu) : Action → Apu
  | .clock => a.clock
  | .write addr value => a.write addr value
  | .readStatus => a.readStatus.2
  | .readSamples dest count =>
    match a.readSamples dest count with
    | .ok (_, read) => read
    | .error _ => a
  | .clearSamples => a.clearSamples
  | .setSampleRate rate => a.setSampleRate rate
  | .reset => a.reset

/-- The chip after some actions. -/
def run (a : Apu) (actions : List Action) : Apu := actions.foldl act a

/-- The cycles among some actions. -/
def clocksOf (actions : List Action) : Nat := actions.countP Action.isClock

/-- The sample that a cycle takes, if one is due. -/
def taken (a : Apu) : List Sample :=
  if (a.pacer.clock a.television.cpuFrequency).1 then
    [.ofFloat32 a.clockSequencer.clockTimers.output]
  else []

/-- The samples that some actions push into the queue. -/
def pushed (a : Apu) : List Action → List Sample
  | [] => []
  | action :: rest => (if action.isClock then a.taken else []) ++ pushed (a.act action) rest

variable {a : Apu}

theorem length_taken (a : Apu) :
    a.taken.length = (a.pacer.clock a.television.cpuFrequency).1.toNat := by
  rw [taken]
  cases (a.pacer.clock a.television.cpuFrequency).1 <;> rfl

/-- A cycle moves channels and pacer on and pushes the sample that it takes. -/
theorem clock_eq (a : Apu) :
    ∃ sequencer pulse1 pulse2 triangle noise,
      a.clock =
        { a with
          sequencer, pulse1, pulse2, triangle, noise
          pacer := (a.pacer.clock a.television.cpuFrequency).2
          samples := a.samples.pushAll a.taken } := by
  obtain ⟨pulse1, pulse2, triangle, noise, happly⟩ :=
    apply_cases { a with sequencer := a.sequencer.clock.2 } a.sequencer.clock.1
  have hsequencer : a.clockSequencer =
      { a with sequencer := a.sequencer.clock.2, pulse1, pulse2, triangle, noise } := happly
  unfold clock sample taken
  rw [hsequencer]
  dsimp only [clockTimers]
  split
  · exact ⟨_, _, _, _, _, rfl⟩
  · exact ⟨_, _, _, _, _, rfl⟩

theorem samples_clock (a : Apu) : a.clock.samples = a.samples.pushAll a.taken := by
  obtain ⟨_, _, _, _, _, hclock⟩ := a.clock_eq
  rw [hclock]

/-- Samples that are read leave the queue, and nothing else changes. -/
theorem act_readSamples (a : Apu) (dest : List Sample) (count : Nat) :
    ∃ samples, a.act (.readSamples dest count) = { a with samples } ∧
      samples.capacity = a.samples.capacity ∧ samples.size ≤ a.samples.size := by
  rw [act, readSamples, SampleQueue.readInto]
  by_cases hfew : a.samples.available < count
  · rw [if_pos hfew]
    exact ⟨a.samples, rfl, rfl, Nat.le_refl _⟩
  rw [if_neg hfew]
  by_cases hsmall : dest.length < count
  · rw [if_pos hsmall]
    exact ⟨a.samples, rfl, rfl, Nat.le_refl _⟩
  · rw [if_neg hsmall]
    exact ⟨a.samples.removeOldest count, rfl, rfl, Nat.sub_le _ _⟩

/-- While the pace is kept only a cycle moves the pacer. -/
theorem pacer_act {action : Action} (h : action.keepsPace = true) :
    (a.act action).television = a.television ∧
      (a.act action).pacer =
        if action.isClock then (a.pacer.clock a.television.cpuFrequency).2 else a.pacer := by
  cases action with
  | clock =>
    obtain ⟨_, _, _, _, _, hclock⟩ := a.clock_eq
    rw [act, hclock]
    exact ⟨rfl, rfl⟩
  | write addr value =>
    obtain ⟨_, _, _, _, _, hwrite⟩ := a.write_cases addr value
    rw [act, hwrite]
    exact ⟨rfl, rfl⟩
  | readStatus | clearSamples => exact ⟨rfl, rfl⟩
  | readSamples dest count =>
    obtain ⟨_, hread, -⟩ := a.act_readSamples dest count
    rw [hread]
    exact ⟨rfl, rfl⟩
  | setSampleRate | reset => exact absurd h Bool.false_ne_true

theorem samples_act {action : Action} (h : action.keepsQueue = true) :
    (a.act action).samples = a.samples.pushAll (if action.isClock then a.taken else []) := by
  cases action with
  | clock => exact a.samples_clock
  | write addr value => exact (a.television_write addr value).2
  | readStatus => rfl
  | readSamples | clearSamples | setSampleRate | reset => exact absurd h Bool.false_ne_true

/-! ## Runs -/

section Runs

variable {actions : List Action}

theorem run_cons (a : Apu) (action : Action) (rest : List Action) :
    a.run (action :: rest) = (a.act action).run rest := rfl

theorem clocksOf_cons (action : Action) (rest : List Action) :
    clocksOf (action :: rest) = clocksOf rest + action.isClock.toNat := by
  rw [clocksOf, List.countP_cons, clocksOf]
  cases action.isClock <;> rfl

/-- While the pace is kept the pacer counts the cycles. -/
theorem pacer_run (h : ∀ action ∈ actions, action.keepsPace = true) :
    (a.run actions).television = a.television ∧
      (a.run actions).pacer =
        a.pacer.clockMany a.television.cpuFrequency (clocksOf actions) := by
  induction actions generalizing a with
  | nil => exact ⟨rfl, rfl⟩
  | cons action rest ih =>
    rw [List.forall_mem_cons] at h
    obtain ⟨htelevision, hpacer⟩ := pacer_act (a := a) h.1
    obtain ⟨hlater, hcounts⟩ := ih (a := a.act action) h.2
    rw [htelevision] at hlater hcounts
    refine ⟨hlater, ?_⟩
    rw [run_cons, hcounts, hpacer, clocksOf_cons]
    cases action.isClock with
    | true => rfl
    | false => rfl

/-- While the pace is kept the samples that are pushed keep the balance. -/
theorem isPaced_run {clocks samples : Nat}
    (hpaced : a.pacer.IsPaced a.television.cpuFrequency clocks samples)
    (hrate : a.pacer.rate ≤ a.television.cpuFrequency)
    (h : ∀ action ∈ actions, action.keepsPace = true) :
    (a.run actions).pacer.IsPaced a.television.cpuFrequency (clocks + clocksOf actions)
        (samples + (a.pushed actions).length) ∧
      (a.run actions).pacer.rate = a.pacer.rate := by
  induction actions generalizing a clocks samples with
  | nil => exact ⟨hpaced, rfl⟩
  | cons action rest ih =>
    rw [List.forall_mem_cons] at h
    obtain ⟨htelevision, hpacer⟩ := pacer_act (a := a) h.1
    have hsame : (a.act action).pacer.rate = a.pacer.rate := by
      rw [hpacer]
      split
      · exact a.pacer.rate_clock _
      · rfl
    have hnext : (a.act action).pacer.IsPaced a.television.cpuFrequency
        (clocks + action.isClock.toNat)
        (samples + (if action.isClock then a.taken else []).length) := by
      rw [hpacer]
      cases action.isClock with
      | true => simpa only [if_true, length_taken, Bool.toNat_true] using hpaced.clock hrate
      | false => exact hpaced
    rw [← htelevision] at hnext hrate ⊢
    obtain ⟨hlast, hlater⟩ := ih hnext (hsame.symm ▸ hrate) h.2
    rw [run_cons, clocksOf_cons, pushed, List.length_append, ← Nat.add_assoc samples,
      Nat.add_comm (clocksOf rest), ← Nat.add_assoc clocks]
    exact ⟨hlast, hlater.trans hsame⟩

/-- While nothing is taken out the queue gets what is pushed. -/
theorem samples_run (h : ∀ action ∈ actions, action.keepsQueue = true) :
    (a.run actions).samples = a.samples.pushAll (a.pushed actions) := by
  induction actions generalizing a with
  | nil => rfl
  | cons action rest ih =>
    rw [List.forall_mem_cons] at h
    rw [run_cons, ih h.2, samples_act h.1, pushed, SampleQueue.pushAll_append]

end Runs

/-! ## The queue of a chip -/

/-- The queue has the capacity it was made with and holds no more than that. -/
structure IsBounded (a : Apu) : Prop where
  capacity : a.samples.capacity = SampleQueue.defaultCapacity
  available : a.samples.available ≤ SampleQueue.defaultCapacity

namespace IsBounded

theorem available_pushAll (h : a.IsBounded) (samples : List Sample) :
    (a.samples.pushAll samples).available =
      min SampleQueue.defaultCapacity (a.samples.available + samples.length) := by
  obtain ⟨hcapacity, havailable⟩ := h
  rw [← hcapacity] at havailable ⊢
  refine SampleQueue.size_pushAll ?_ havailable samples
  rw [hcapacity]
  decide

/-- No action makes the queue longer than its capacity. -/
theorem act (h : a.IsBounded) (action : Action) : (a.act action).IsBounded := by
  obtain ⟨hcapacity, havailable⟩ := h
  cases action with
  | clock =>
    refine ⟨a.capacity_clock.trans hcapacity, ?_⟩
    rw [Apu.act, samples_clock, available_pushAll ⟨hcapacity, havailable⟩]
    exact Nat.min_le_left _ _
  | write addr value =>
    obtain ⟨-, hsame⟩ := a.television_write addr value
    exact ⟨(congrArg _ hsame).trans hcapacity, hsame.symm ▸ havailable⟩
  | readStatus | setSampleRate => exact ⟨hcapacity, havailable⟩
  | readSamples dest count =>
    obtain ⟨samples, hread, hsame, hfewer⟩ := a.act_readSamples dest count
    rw [hread]
    exact ⟨hsame.trans hcapacity, Nat.le_trans hfewer havailable⟩
  | clearSamples | reset => exact ⟨hcapacity, Nat.zero_le _⟩

theorem run (h : a.IsBounded) (actions : List Action) : (a.run actions).IsBounded := by
  induction actions generalizing a with
  | nil => exact h
  | cons action rest ih => exact ih (h.act action)

theorem powerOn (tv : Television) : (powerOn tv).IsBounded := ⟨rfl, Nat.zero_le _⟩

end IsBounded

/-! ## Rates up to the frequency -/

/-- The pace starts at power-on, with a reset and with a new rate, whatever has happened before. Only
after a new rate some samples are still waiting. -/
inductive Restarted : Nat → Apu → Prop
  | powerOn (tv : Television) : Restarted 0 (powerOn tv)
  | reset (tv : Television) (history : List Action) :
    Restarted 0 ((Apu.powerOn tv).run history).reset
  | setSampleRate (tv : Television) (history : List Action) (rate : Nat) :
    Restarted ((Apu.powerOn tv).run history).samples.available
      (((Apu.powerOn tv).run history).setSampleRate rate)

namespace Restarted

variable {waiting : Nat} {actions : List Action}

theorem phase_eq_zero (h : Restarted waiting a) : a.pacer.phase = 0 := by
  cases h <;> rfl

theorem isBounded (h : Restarted waiting a) : a.IsBounded := by
  cases h with
  | powerOn tv => exact .powerOn tv
  | reset tv history => exact ((IsBounded.powerOn tv).run history).act .reset
  | setSampleRate tv history rate =>
    exact ((IsBounded.powerOn tv).run history).act (.setSampleRate rate)

theorem available_eq (h : Restarted waiting a) : a.samples.available = waiting := by
  cases h <;> rfl

/-- As long as the rate is not above the frequency, the samples pushed since the last restart are
the quotient of what the cycles have added by the frequency, the phase is the remainder, and no sum
leaves its register. If nothing has been taken out, the samples that wait are these and the ones
that waited before, up to the capacity of the queue. -/
theorem decimates (h : Restarted waiting a) (hrate : a.pacer.rate ≤ a.television.cpuFrequency)
    (hpace : ∀ action ∈ actions, action.keepsPace = true) :
    (∀ b : Apu, b.clock.samples = b.samples.pushAll b.taken) ∧
      (a.pushed actions).length =
        clocksOf actions * a.pacer.rate / a.television.cpuFrequency ∧
      (a.run actions).pacer.phase =
        clocksOf actions * a.pacer.rate % a.television.cpuFrequency ∧
      (a.pacer.fault = false → (a.run actions).pacer.fault = false) ∧
      ((∀ action ∈ actions, action.keepsQueue = true) →
        (a.run actions).samples = a.samples.pushAll (a.pushed actions) ∧
        (a.run actions).samples.available =
          min SampleQueue.defaultCapacity
            (waiting + clocksOf actions * a.pacer.rate / a.television.cpuFrequency)) := by
  obtain ⟨hleast, hgreatest⟩ := a.television.cpuFrequency_bounds
  have hempty : a.pacer.IsPaced a.television.cpuFrequency 0 0 :=
    ⟨by rw [h.phase_eq_zero]; omega, by rw [h.phase_eq_zero, Nat.mul_zero, Nat.zero_mul]⟩
  obtain ⟨hpaced, hsame⟩ := isPaced_run hempty hrate hpace
  obtain ⟨hquotient, hremainder⟩ := hpaced.eq_div_mod
  rw [Nat.zero_add, Nat.zero_add, hsame] at hquotient
  rw [Nat.zero_add, hsame] at hremainder
  refine ⟨samples_clock, hquotient, hremainder, ?_, ?_⟩
  · intro hfault
    rw [(pacer_run hpace).2]
    have hsound : a.pacer.IsSound a.television.cpuFrequency := ⟨hrate, hempty.phase_lt, hfault⟩
    exact (hsound.clockMany hgreatest _).fault
  · intro hqueue
    have hsamples := samples_run (a := a) hqueue
    refine ⟨hsamples, ?_⟩
    rw [hsamples, h.isBounded.available_pushAll, h.available_eq, hquotient]

end Restarted

theorem clocksOf_replicate (n : Nat) : clocksOf (.replicate n .clock) = n := by
  rw [clocksOf, List.countP_replicate]
  rfl

theorem keepsPace_replicate (n : Nat) :
    ∀ action ∈ List.replicate n Action.clock, action.keepsPace = true := by
  intro action hmem
  rw [List.eq_of_mem_replicate hmem]
  rfl

/-- A thousand cycles of the slower processor at 48 kHz. -/
theorem decimates_thousand :
    let a := (powerOn .pal).setSampleRate 48000
    (a.pushed (.replicate 1000 .clock)).length = 28 ∧
      (a.run (.replicate 1000 .clock)).pacer.phase = 1447004 := by
  have hrestarted : Restarted 0 ((powerOn .pal).setSampleRate 48000) := .setSampleRate .pal [] 48000
  obtain ⟨-, hpushed, hphase, -⟩ :=
    Restarted.decimates hrestarted (by decide) (keepsPace_replicate 1000)
  rw [clocksOf_replicate] at hpushed hphase
  exact ⟨hpushed.trans (by decide), hphase.trans (by decide)⟩

/-! ## Rates above the frequency -/

/-- The phase stays below the frequency and in its register on every run, exactly if the rate is not
above the frequency. Above it the phase grows by the difference with every cycle, and leaves the
register with the first cycle whose sum does not fit. -/
theorem paces_iff (a : Apu) (hfault : a.pacer.fault = false) (rate : Nat) :
    ((∀ actions : List Action, (∀ action ∈ actions, action.keepsPace = true) →
        ((a.setSampleRate rate).run actions).pacer.phase < a.television.cpuFrequency ∧
          ((a.setSampleRate rate).run actions).pacer.fault = false) ↔
      rate ≤ a.television.cpuFrequency) ∧
    (a.television.cpuFrequency < rate →
      ∀ actions : List Action, (∀ action ∈ actions, action.keepsPace = true) →
        ((a.setSampleRate rate).run actions).pacer.phase =
            clocksOf actions * (rate - a.television.cpuFrequency) ∧
          (((a.setSampleRate rate).run actions).pacer.fault = true ↔
            ∃ k < clocksOf actions,
              SamplePacer.phaseLimit ≤ k * (rate - a.television.cpuFrequency) + rate)) := by
  obtain ⟨hleast, hgreatest⟩ := a.television.cpuFrequency_bounds
  have hpacer : ∀ actions : List Action, (∀ action ∈ actions, action.keepsPace = true) →
      ((a.setSampleRate rate).run actions).pacer =
        (a.pacer.setRate rate).clockMany a.television.cpuFrequency (clocksOf actions) :=
    fun actions hpace ↦ (pacer_run (a := a.setSampleRate rate) hpace).2
  have hgrows : a.television.cpuFrequency < rate → ∀ n : Nat,
      ((a.pacer.setRate rate).clockMany a.television.cpuFrequency n).phase =
        n * (rate - a.television.cpuFrequency) := by
    intro habove n
    rw [(SamplePacer.phase_clockMany (Nat.le_of_lt habove) n).1]
    exact Nat.zero_add _
  refine ⟨⟨fun hsafe ↦ ?_, fun hrate actions hpace ↦ ?_⟩, fun habove actions hpace ↦ ?_⟩
  · -- After as many cycles as the frequency says, even a difference of one has reached it.
    refine Nat.le_of_not_lt fun habove ↦ ?_
    obtain ⟨hphase, -⟩ := hsafe _ (keepsPace_replicate a.television.cpuFrequency)
    rw [hpacer _ (keepsPace_replicate _), clocksOf_replicate, hgrows habove] at hphase
    have hreached := Nat.le_mul_of_pos_right a.television.cpuFrequency (Nat.sub_pos_of_lt habove)
    omega
  · have hsound : (a.pacer.setRate rate).IsSound a.television.cpuFrequency :=
      ⟨hrate, by change 0 < _; omega, hfault⟩
    rw [hpacer actions hpace]
    exact ⟨(hsound.clockMany hgreatest _).phase, (hsound.clockMany hgreatest _).fault⟩
  · rw [hpacer actions hpace]
    refine ⟨hgrows habove _, ?_⟩
    have hlatch := (a.pacer.setRate rate).fault_clockMany (Nat.le_of_lt habove) hfault
      (clocksOf actions)
    simpa only [SamplePacer.setRate, Nat.zero_add] using hlatch

/-- One above the frequency of the slower processor, the sum that is too great comes after more than
forty minutes. -/
theorem paces_iff_oneAbove :
    let a := (powerOn .pal).setSampleRate 1662608
    (powerOn .pal).pacer.fault = false ∧
      (a.run (.replicate 4293304688 .clock)).pacer.fault = false ∧
      (a.run (.replicate 4293304689 .clock)).pacer.fault = true := by
  have hfault : (powerOn .pal).pacer.fault = false := rfl
  obtain ⟨-, habove⟩ := paces_iff (powerOn .pal) hfault 1662608
  have hfrequency : (powerOn .pal).television.cpuFrequency = 1662607 := rfl
  rw [hfrequency] at habove
  have hlatch := fun n ↦ (habove (by decide) _ (keepsPace_replicate n)).2
  simp only [clocksOf_replicate] at hlatch
  refine ⟨hfault, ?_, (hlatch _).mpr ⟨4293304688, by decide, by decide⟩⟩
  rw [← Bool.not_eq_true, hlatch]
  rintro ⟨k, hk, hlimit⟩
  rw [SamplePacer.phaseLimit] at hlimit
  omega

/-- The greatest rate that fits into the register: the phase is above the frequency after the first
cycle, and the second cycle leaves the register. -/
theorem leaves_register_greatestRate :
    let a := (powerOn .ntsc).setSampleRate 0xffffffff
    Television.ntsc.cpuFrequency ≤ (a.run [.clock]).pacer.phase ∧
      (a.run [.clock, .clock]).pacer.fault = true := by
  have hpacer := fun n ↦ (pacer_run (a := (powerOn .ntsc).setSampleRate 0xffffffff)
    (keepsPace_replicate n)).2
  refine ⟨?_, ?_⟩
  · change _ ≤ (Apu.run _ (.replicate 1 .clock)).pacer.phase
    rw [hpacer]
    decide
  · change (Apu.run _ (.replicate 2 .clock)).pacer.fault = true
    rw [hpacer]
    decide

end Apu

end Famicom
