import Famicom.Proofs.Picture.Freshness

/-!
# The discipline of the vertical blank

The flag of the vertical blank rises with one dot of a frame, `(241, 1)`, and falls with another,
`(-1, 1)`, or before that with a read of the status register. From this follows all that a program
may rely on, whatever it reads and writes between the dots (`Ppu.blank_discipline`): it sees the
flag once in a frame at most, an interrupt is requested with every vertical blank or with none, and
a second request within one vertical blank has been asked for.

## Events

An action together with the chip it finds is an event, and a list of actions leaves a trace of
events. What is said of a stretch between two dots is said of its trace: how many of its events read
the flag, run a certain dot or request an interrupt.

## What carries the proofs

Two bits of the chip, the flag and the last sample of the interrupt output, are set only while the
beam is in the vertical blank (`Ppu.IsBlanking`). So the output is low when the vertical blank
starts, and the dot that starts it requests an interrupt exactly if one is wanted. From then on flag
and sample agree about the enable bit (`Ppu.IsSettled`) until a write to the control register, and
the output does not rise again.

The dots that start a vertical blank are counted against the place of the beam
(`Ppu.IsBlanking.length_blankStarts`): in a stretch that does not end one, each of them brings the
beam into the vertical blank, and nothing takes it out.
-/

namespace Famicom

/-! ## The beam -/

namespace Beam

/-- The beam is past the dot that starts the vertical blank and not past the one that ends it. -/
def inBlank (b : Beam) : Bool :=
  241 < b.line ∨ b.line = 241 ∧ 2 ≤ b.dot ∨ b.line = -1 ∧ b.dot ≤ 1

variable {b : Beam}

theorem inBlank_of_isAt_start (h : b.isAt blankLine 1 = true) : b.inBlank = false := by
  simp only [isAt, blankLine, Bool.and_eq_true, beq_iff_eq] at h
  simp only [inBlank, decide_eq_false_iff_not]
  omega

theorem inBlank_of_isAt_end (h : b.isAt preRenderLine 1 = true) : b.inBlank = true := by
  simp only [isAt, preRenderLine, Bool.and_eq_true, beq_iff_eq] at h
  simp only [inBlank, decide_eq_true_eq]
  omega

/-- One dot takes the beam into the vertical blank, and one takes it out. -/
theorem inBlank_advance (h : b.IsOnFrame) (rendering : Bool) :
    (b.advance rendering).2.inBlank =
      (b.isAt blankLine 1 || b.inBlank && !b.isAt preRenderLine 1) := by
  obtain ⟨hge, hle, hdot⟩ := h
  have hlines := television_lines b.television
  rw [lastLine_eq] at hle
  rw [Television.dotsPerLine] at hdot
  rw [Bool.eq_iff_iff]
  simp only [isAt, blankLine, preRenderLine, inBlank, Bool.or_eq_true, Bool.and_eq_true,
    Bool.not_eq_true', Bool.and_eq_false_iff, beq_iff_eq, beq_eq_false_iff_ne, decide_eq_true_eq]
  rcases b.advance_cases rendering with ⟨hline, hlast, -, h⟩ | ⟨hnext, h⟩ | ⟨hend, hline, h⟩ |
    ⟨hend, hline, h⟩ <;> rw [h] <;> dsimp only
  · omega
  · omega
  · omega
  · rw [lastLine_eq] at hline
    omega

end Beam

namespace Ppu

/-! ## Events -/

/-- An action writes the control register. -/
def Action.isControlWrite : Action → Bool
  | .write index _ => index.val = 0
  | _ => false

/-- An action reads the status register. -/
def Action.isStatusRead : Action → Bool
  | .read _ index => index.val = 2
  | _ => false

/-- An action resets the chip. -/
def Action.isReset : Action → Bool
  | .reset => true
  | _ => false

/-- An action and the chip that it finds. -/
structure Event where
  chip : Ppu
  action : Action

namespace Event

/-- The event runs the dot at this place. -/
def runs (line : Int) (dot : Nat) (e : Event) : Bool :=
  match e.action with
  | .dot _ => e.chip.beam.isAt line dot
  | _ => false

/-- The event requests an interrupt. -/
def requests (e : Event) : Bool :=
  match e.action with
  | .dot fetch => (e.chip.tick fetch).nmi
  | _ => false

/-- The event reads the status register and finds its highest bit set. -/
def readsBlank (e : Event) : Bool :=
  match e.action with
  | .read fetch index => index.val = 2 && bit (e.chip.busRead fetch index).1 7
  | _ => false

end Event

/-- The chip after some actions. -/
def run (p : Ppu) (actions : List Action) : Ppu := actions.foldl act p

/-- The events of some actions. -/
def trace (p : Ppu) : List Action → List Event
  | [] => []
  | action :: rest => ⟨p, action⟩ :: trace (p.act action) rest

variable {p : Ppu}

@[simp] theorem run_nil (p : Ppu) : p.run [] = p := rfl

@[simp] theorem run_cons (p : Ppu) (action : Action) (rest : List Action) :
    p.run (action :: rest) = (p.act action).run rest := rfl

theorem run_append (p : Ppu) (actions rest : List Action) :
    p.run (actions ++ rest) = (p.run actions).run rest := List.foldl_append ..

@[simp] theorem trace_cons (p : Ppu) (action : Action) (rest : List Action) :
    p.trace (action :: rest) = ⟨p, action⟩ :: (p.act action).trace rest := rfl

theorem trace_append (p : Ppu) (actions rest : List Action) :
    p.trace (actions ++ rest) = p.trace actions ++ (p.run actions).trace rest := by
  induction actions generalizing p with
  | nil => rfl
  | cons action actions ih => rw [List.cons_append, trace_cons, ih]; rfl

/-! ## One action -/

theorem vblank_updateStatus (p : Ppu) :
    p.updateStatus.vblank =
      (p.beam.isAt Beam.blankLine 1 || p.vblank && !p.beam.isAt Beam.preRenderLine 1) := by
  rw [updateStatus]
  cases p.beam.isAt Beam.blankLine 1 with
  | true => rfl
  | false =>
    cases p.beam.isAt Beam.preRenderLine 1 with
    | true => exact (Bool.and_false _).symm
    | false => exact (Bool.and_true _).symm

/-- What a dot makes of the flag, the sample of the output and the enable bit. -/
theorem blank_act_dot (p : Ppu) (fetch : UInt16 → UInt8) :
    (p.act (.dot fetch)).vblank = p.updateStatus.vblank ∧
      (p.act (.dot fetch)).nmiLevel = (p.updateStatus.vblank && p.controls.nmiEnabled) ∧
      (p.act (.dot fetch)).controls.nmiEnabled = p.controls.nmiEnabled := by
  obtain ⟨⟨_, _, _, _, _, _, _, htick⟩, -, -⟩ := p.tick_eq fetch
  rw [act, htick]
  exact ⟨rfl, rfl, rfl⟩

/-- A read leaves the beam, the sample of the output and the enable bit. That of the status register
shows the flag and takes it down, and no other read does. -/
theorem blank_act_read (p : Ppu) (fetch : UInt16 → UInt8) (index : Fin 8) :
    (p.act (.read fetch index)).beam = p.beam ∧
      (p.act (.read fetch index)).nmiLevel = p.nmiLevel ∧
      (p.act (.read fetch index)).controls.nmiEnabled = p.controls.nmiEnabled ∧
      (p.act (.read fetch index)).vblank = (p.vblank && !decide (index.val = 2)) := by
  obtain ⟨controls, vblank, hread, hcontrol, -, -⟩ := p.busRead_cases fetch index
  refine ⟨?_, ?_, ?_, ?_⟩
  · rw [act, hread]
  · rw [act, hread]
  · rw [act, hread]
    exact congrArg (bit · 7) hcontrol
  · change (p.busRead fetch index).2.vblank = _
    unfold busRead
    split
    · exact (Bool.and_false _).symm
    · exact (Bool.and_true _).symm
    · unfold readData
      dsimp only
      split
      · exact (Bool.and_true _).symm
      · exact (Bool.and_true _).symm
    · next hother _ _ =>
      have hval : index.val ≠ 2 := fun hsame ↦ hother (Fin.ext hsame)
      rw [decide_eq_false hval]
      exact (Bool.and_true _).symm

/-- The highest bit of the status register is the flag. -/
theorem bit_statusByte (p : Ppu) : bit p.statusByte 7 = p.vblank := by
  have hhit := p.spriteHit.toNat_le
  have hoverflow := p.spriteOverflow.toNat_le
  rw [bit, statusByte, UInt8.toNat_ofNat', Nat.testBit_eq_decide_div_mod_eq]
  cases p.vblank with
  | true =>
    rw [Bool.toNat_true, decide_eq_true_eq]
    omega
  | false =>
    rw [Bool.toNat_false, decide_eq_false_iff_not]
    omega

/-- A write leaves all but the enable bit. -/
theorem blank_act_write (p : Ppu) (index : Fin 8) (value : UInt8) :
    (p.act (.write index value)).beam = p.beam ∧
      (p.act (.write index value)).nmiLevel = p.nmiLevel ∧
      (p.act (.write index value)).vblank = p.vblank ∧
      (p.act (.write index value)).controls.nmiEnabled =
        if index.val = 0 then bit value 7 else p.controls.nmiEnabled := by
  obtain ⟨controls, palette, oam, hwrite, hcontrol⟩ := p.busWrite_cases index value
  refine ⟨?_, ?_, ?_, ?_⟩
  · rw [act, hwrite]
  · rw [act, hwrite]
  · rw [act, hwrite]
  · split
    · next hzero =>
      obtain rfl : index = 0 := Fin.ext hzero
      rfl
    · next hother =>
      rw [act, hwrite]
      exact congrArg (bit · 7) (hcontrol fun hzero ↦ hother (congrArg Fin.val hzero))

/-- Only a write to the control register wants the interrupt anew. -/
theorem nmiEnabled_act {action : Action} (h : (p.act action).controls.nmiEnabled = true) :
    p.controls.nmiEnabled = true ∨ ∃ value, action = .write 0 value ∧ bit value 7 = true := by
  cases action with
  | dot fetch => exact Or.inl ((p.blank_act_dot fetch).2.2.symm.trans h)
  | read fetch index => exact Or.inl ((p.blank_act_read fetch index).2.2.1.symm.trans h)
  | write index value =>
    rw [(p.blank_act_write index value).2.2.2] at h
    split at h
    · next hzero =>
      obtain rfl : index = 0 := Fin.ext hzero
      exact Or.inr ⟨value, rfl, h⟩
    · exact Or.inl h
  | reset =>
    have hoff : bit 0 7 = false := by decide
    exact absurd (hoff.symm.trans h) Bool.false_ne_true

/-- Apart from the dot that starts the vertical blank nothing sets the flag, and what leaves it up
has not read it. -/
theorem vblank_act {action : Action} (hstart : Event.runs Beam.blankLine 1 ⟨p, action⟩ = false)
    (h : (p.act action).vblank = true) : p.vblank = true ∧ action.isStatusRead = false := by
  cases action with
  | dot fetch =>
    change p.beam.isAt Beam.blankLine 1 = false at hstart
    rw [(p.blank_act_dot fetch).1, vblank_updateStatus, hstart, Bool.false_or,
      Bool.and_eq_true] at h
    exact ⟨h.1, rfl⟩
  | read fetch index =>
    rw [(p.blank_act_read fetch index).2.2.2, Bool.and_eq_true, Bool.not_eq_true'] at h
    exact h
  | write index value => exact ⟨(p.blank_act_write index value).2.2.1.symm.trans h, rfl⟩
  | reset => exact absurd h Bool.false_ne_true

/-! ## The invariant -/

/-- Flag and sample are set in the vertical blank only. -/
structure IsBlanking (p : Ppu) : Prop where
  onFrame : p.beam.IsOnFrame
  vblank : p.vblank = true → p.beam.inBlank = true
  level : p.nmiLevel = true → p.beam.inBlank = true

theorem isBlanking_reset (p : Ppu) : p.reset.IsBlanking where
  onFrame := p.beam.isOnFrame_reset
  vblank := fun h ↦ absurd h Bool.false_ne_true
  level := fun h ↦ absurd h Bool.false_ne_true

namespace IsBlanking

theorem act (h : p.IsBlanking) (action : Action) : (p.act action).IsBlanking := by
  cases action with
  | dot fetch =>
    obtain ⟨hvblank, hlevel, -⟩ := p.blank_act_dot fetch
    -- the flag goes with the beam: both are set by one dot and taken back by another
    have hflag : p.updateStatus.vblank = true → (p.act (.dot fetch)).beam.inBlank = true := by
      rw [beam_act_dot, Beam.inBlank_advance h.onFrame, vblank_updateStatus]
      simp only [Bool.or_eq_true, Bool.and_eq_true]
      exact Or.imp_right (And.imp_left h.vblank)
    refine ⟨?_, ?_, ?_⟩
    · rw [beam_act_dot]
      exact h.onFrame.advance _
    · rw [hvblank]
      exact hflag
    · rw [hlevel, Bool.and_eq_true]
      exact fun hboth ↦ hflag hboth.1
  | read fetch index =>
    obtain ⟨hbeam, hlevel, -, hvblank⟩ := p.blank_act_read fetch index
    refine ⟨?_, ?_, ?_⟩ <;> rw [hbeam]
    · exact h.onFrame
    · rw [hvblank, Bool.and_eq_true]
      exact fun hboth ↦ h.vblank hboth.1
    · rw [hlevel]
      exact h.level
  | write index value =>
    obtain ⟨hbeam, hlevel, hvblank, -⟩ := p.blank_act_write index value
    refine ⟨?_, ?_, ?_⟩ <;> rw [hbeam]
    · exact h.onFrame
    · rw [hvblank]
      exact h.vblank
    · rw [hlevel]
      exact h.level
  | reset => exact p.isBlanking_reset

theorem run (h : p.IsBlanking) (actions : List Action) : (p.run actions).IsBlanking := by
  induction actions generalizing p with
  | nil => exact h
  | cons action rest ih => exact ih (h.act action)

end IsBlanking

/-! ## How often the vertical blank starts -/

theorem runs_dot (p : Ppu) (line : Int) (dot : Nat) (fetch : UInt16 → UInt8) :
    Event.runs line dot ⟨p, .dot fetch⟩ = p.beam.isAt line dot := rfl

/-- In a stretch that does not end the vertical blank, the dots that start it make up for where the
beam has come. -/
theorem IsBlanking.length_blankStarts (h : p.IsBlanking) {stretch : List Action}
    (hstretch : ∀ e ∈ p.trace stretch,
      e.runs Beam.preRenderLine 1 = false ∧ e.action.isReset = false) :
    ((p.trace stretch).filter (Event.runs Beam.blankLine 1)).length + p.beam.inBlank.toNat =
      (p.run stretch).beam.inBlank.toNat := by
  induction stretch generalizing p with
  | nil => exact Nat.zero_add _
  | cons action rest ih =>
    rw [trace_cons, List.forall_mem_cons] at hstretch
    obtain ⟨⟨hgoes, hnoReset⟩, hrest⟩ := hstretch
    have hstep : (Event.runs Beam.blankLine 1 ⟨p, action⟩).toNat + p.beam.inBlank.toNat =
        (p.act action).beam.inBlank.toNat := by
      cases action with
      | dot fetch =>
        rw [runs_dot] at hgoes ⊢
        rw [beam_act_dot, Beam.inBlank_advance h.onFrame, hgoes, Bool.not_false, Bool.and_true]
        cases hstart : p.beam.isAt Beam.blankLine 1 with
        | true => rw [Beam.inBlank_of_isAt_start hstart]; rfl
        | false => rw [Bool.false_or, Bool.toNat_false, Nat.zero_add]
      | read fetch index =>
        rw [(p.blank_act_read fetch index).1]
        exact Nat.zero_add _
      | write index value =>
        rw [(p.blank_act_write index value).1]
        exact Nat.zero_add _
      | reset => exact absurd hnoReset Bool.false_ne_true.symm
    rw [run_cons, ← ih (h.act action) hrest, ← hstep, trace_cons, List.filter_cons]
    cases Event.runs Beam.blankLine 1 ⟨p, action⟩ with
    | true =>
      rw [if_pos rfl, List.length_cons, Bool.toNat_true]
      omega
    | false =>
      rw [if_neg Bool.false_ne_true, Bool.toNat_false, Nat.zero_add]

/-! ## How often the flag is read -/

/-- In a stretch that does not start the vertical blank, every read that finds the flag takes it
down. -/
theorem length_blankReads_le {stretch : List Action}
    (hstretch : ∀ e ∈ p.trace stretch, e.runs Beam.blankLine 1 = false) :
    ((p.trace stretch).filter Event.readsBlank).length + (p.run stretch).vblank.toNat ≤
      p.vblank.toNat := by
  induction stretch generalizing p with
  | nil => exact Nat.le_of_eq (Nat.zero_add _)
  | cons action rest ih =>
    rw [trace_cons, List.forall_mem_cons] at hstretch
    obtain ⟨hhere, hrest⟩ := hstretch
    have hstep : (Event.readsBlank ⟨p, action⟩).toNat + (p.act action).vblank.toNat ≤
        p.vblank.toNat := by
      cases action with
      | dot fetch =>
        rw [runs_dot] at hhere
        rw [(p.blank_act_dot fetch).1, vblank_updateStatus, hhere, Bool.false_or]
        change 0 + _ ≤ _
        rw [Nat.zero_add]
        cases p.vblank with
        | true => exact Bool.toNat_le _
        | false => exact Nat.le_refl _
      | read fetch index =>
        rw [(p.blank_act_read fetch index).2.2.2]
        refine Nat.le_of_eq ?_
        by_cases hstatus : index.val = 2
        · obtain rfl : index = 2 := Fin.ext hstatus
          change (bit p.statusByte 7).toNat + (p.vblank && false).toNat = _
          rw [bit_statusByte, Bool.and_false, Bool.toNat_false, Nat.add_zero]
        · change (decide (index.val = 2) && bit _ 7).toNat + _ = _
          rw [decide_eq_false hstatus, Bool.false_and, Bool.not_false, Bool.and_true,
            Bool.toNat_false, Nat.zero_add]
      | write index value =>
        rw [(p.blank_act_write index value).2.2.1]
        exact Nat.le_of_eq (Nat.zero_add _)
      | reset => exact Nat.zero_le _
    have hlater := ih hrest
    rw [run_cons, trace_cons, List.filter_cons]
    cases hreads : Event.readsBlank ⟨p, action⟩ with
    | true =>
      rw [hreads, Bool.toNat_true] at hstep
      rw [if_pos rfl, List.length_cons]
      omega
    | false =>
      rw [hreads, Bool.toNat_false, Nat.zero_add] at hstep
      rw [if_neg Bool.false_ne_true]
      exact Nat.le_trans hlater hstep

/-! ## Where an interrupt is requested -/

theorem requests_dot (p : Ppu) (fetch : UInt16 → UInt8) :
    Event.requests ⟨p, .dot fetch⟩ =
      (p.updateStatus.vblank && p.controls.nmiEnabled && !p.nmiLevel) := (p.tick_eq fetch).2.1

/-- As long as the flag is up the sample agrees with the enable bit. -/
def IsSettled (p : Ppu) : Prop := p.vblank = true → p.nmiLevel = p.controls.nmiEnabled

/-- Every dot settles the chip. -/
theorem isSettled_act_dot (p : Ppu) (fetch : UInt16 → UInt8) : (p.act (.dot fetch)).IsSettled := by
  obtain ⟨hvblank, hlevel, henabled⟩ := p.blank_act_dot fetch
  intro hup
  rw [hvblank] at hup
  rw [hlevel, henabled, hup, Bool.true_and]

/-- Without a write to the control register the chip stays settled, and what is enabled stays so. -/
theorem IsSettled.act (h : p.IsSettled) {action : Action}
    (hcontrol : action.isControlWrite = false) (hreset : action.isReset = false) :
    (p.act action).IsSettled ∧ (p.act action).controls.nmiEnabled = p.controls.nmiEnabled := by
  cases action with
  | dot fetch => exact ⟨p.isSettled_act_dot fetch, (p.blank_act_dot fetch).2.2⟩
  | read fetch index =>
    obtain ⟨-, hlevel, henabled, hvblank⟩ := p.blank_act_read fetch index
    refine ⟨fun hup ↦ ?_, henabled⟩
    rw [hvblank, Bool.and_eq_true] at hup
    rw [hlevel, henabled]
    exact h hup.1
  | write index value =>
    obtain ⟨-, hlevel, hvblank, henabled⟩ := p.blank_act_write index value
    rw [if_neg (of_decide_eq_false hcontrol)] at henabled
    refine ⟨fun hup ↦ ?_, henabled⟩
    rw [hlevel, henabled]
    exact h (hvblank.symm.trans hup)
  | reset => exact absurd hreset Bool.false_ne_true.symm

/-- A settled chip requests an interrupt with the dot that starts the vertical blank, if one is
wanted, and with no other. -/
theorem IsBlanking.requests_eq (h : p.IsBlanking) (hsettled : p.IsSettled) (action : Action) :
    Event.requests ⟨p, action⟩ =
      (Event.runs Beam.blankLine 1 ⟨p, action⟩ && p.controls.nmiEnabled) := by
  cases action with
  | dot fetch =>
    rw [requests_dot, runs_dot, vblank_updateStatus]
    cases hstart : p.beam.isAt Beam.blankLine 1 with
    | true =>
      -- the beam is not in the vertical blank yet, so the last sample was low
      have hlow : p.nmiLevel = false := by
        rw [← Bool.not_eq_true]
        intro hlevel
        exact absurd (h.level hlevel) (by simp [Beam.inBlank_of_isAt_start hstart])
      rw [hlow, Bool.true_or, Bool.not_false, Bool.and_true]
    | false =>
      rw [Bool.false_or, Bool.false_and]
      cases hup : p.vblank with
      | true => rw [hsettled hup, Bool.and_assoc, Bool.and_not_self, Bool.and_false]
      | false => rw [Bool.false_and, Bool.false_and, Bool.false_and]
  | read | write | reset => rfl

theorem IsBlanking.requests_trace (h : p.IsBlanking) (hsettled : p.IsSettled)
    {stretch : List Action}
    (hstretch : ∀ e ∈ p.trace stretch,
      e.action.isControlWrite = false ∧ e.action.isReset = false) :
    ∀ e ∈ p.trace stretch, e.requests = (e.runs Beam.blankLine 1 && p.controls.nmiEnabled) := by
  induction stretch generalizing p with
  | nil => exact fun e he ↦ absurd he List.not_mem_nil
  | cons action rest ih =>
    rw [trace_cons, List.forall_mem_cons] at hstretch ⊢
    obtain ⟨⟨hcontrol, hreset⟩, hrest⟩ := hstretch
    obtain ⟨hnext, henabled⟩ := hsettled.act hcontrol hreset
    have hlater := ih (h.act action) hnext hrest
    rw [henabled] at hlater
    exact ⟨h.requests_eq hsettled action, hlater⟩

/-- From the end of one vertical blank to the end of the next, one interrupt is requested where one
is wanted, by the dot that starts the vertical blank. -/
theorem IsBlanking.requests_between (h : p.IsBlanking) (fetch : UInt16 → UInt8)
    {stretch : List Action} (hfirst : p.beam.isAt Beam.preRenderLine 1 = true)
    (hstretch : ∀ e ∈ (p.act (.dot fetch)).trace stretch,
      e.runs Beam.preRenderLine 1 = false ∧ e.action.isControlWrite = false ∧
        e.action.isReset = false)
    (hlast : (p.run (.dot fetch :: stretch)).beam.isAt Beam.preRenderLine 1 = true) :
    if p.controls.nmiEnabled then
      ∃ e, (p.trace (.dot fetch :: stretch)).filter Event.requests = [e] ∧
        e.runs Beam.blankLine 1 = true
    else (p.trace (.dot fetch :: stretch)).filter Event.requests = [] := by
  have hnot : p.beam.isAt Beam.blankLine 1 = false := by
    rw [← Bool.not_eq_true]
    intro hstart
    have hout := Beam.inBlank_of_isAt_start hstart
    exact absurd (hout.symm.trans (Beam.inBlank_of_isAt_end hfirst)) Bool.false_ne_true
  have hnext := h.act (.dot fetch)
  have henabled := (p.blank_act_dot fetch).2.2
  -- the first dot takes the flag down and the beam out of the vertical blank
  have hquiet : Event.requests ⟨p, .dot fetch⟩ = false := by
    rw [requests_dot, vblank_updateStatus, hfirst, hnot, Bool.not_true, Bool.and_false]
    rfl
  have hout : (p.act (.dot fetch)).beam.inBlank = false := by
    rw [beam_act_dot, Beam.inBlank_advance h.onFrame, hfirst, hnot, Bool.not_true, Bool.and_false]
    rfl
  have hcount := hnext.length_blankStarts fun e he ↦ ⟨(hstretch e he).1, (hstretch e he).2.2⟩
  rw [hout, ← run_cons, Beam.inBlank_of_isAt_end hlast] at hcount
  have hrequests := hnext.requests_trace (p.isSettled_act_dot fetch) fun e he ↦ (hstretch e he).2
  rw [henabled] at hrequests
  rw [trace_cons, List.filter_cons_of_neg (ne_true_of_eq_false hquiet)]
  split
  · next hwanted =>
    rw [hwanted] at hrequests
    obtain ⟨e, he⟩ := List.length_eq_one_iff.mp hcount
    have hmem := List.mem_singleton_self e
    rw [← he, List.mem_filter] at hmem
    refine ⟨e, ?_, hmem.2⟩
    rw [← he]
    exact List.filter_congr fun e he ↦ (hrequests e he).trans (Bool.and_true _)
  · next hunwanted =>
    refine List.filter_eq_nil_iff.mpr fun e he ↦ ?_
    rw [hrequests e he, Bool.and_eq_true]
    exact fun hboth ↦ hunwanted hboth.2

/-! ## Further requests -/

/-- In a stretch that does not start the vertical blank, a flag that is up at the end has been up all
the time and has not been read. -/
theorem vblank_trace {stretch : List Action}
    (hstretch : ∀ e ∈ p.trace stretch, e.runs Beam.blankLine 1 = false)
    (h : (p.run stretch).vblank = true) :
    p.vblank = true ∧
      ∀ e ∈ p.trace stretch, e.chip.vblank = true ∧ e.action.isStatusRead = false := by
  induction stretch generalizing p with
  | nil => exact ⟨h, fun e he ↦ absurd he List.not_mem_nil⟩
  | cons action rest ih =>
    rw [trace_cons, List.forall_mem_cons] at hstretch ⊢
    obtain ⟨hup, hlater⟩ := ih hstretch.2 h
    have hhere := vblank_act hstretch.1 hup
    exact ⟨hhere.1, hhere, hlater⟩

/-- With the flag up, the sample falls with a dot that sees the enable bit clear. -/
theorem exists_dot_of_nmiLevel {stretch : List Action}
    (hstretch : ∀ e ∈ p.trace stretch, e.runs Beam.blankLine 1 = false)
    (hup : (p.run stretch).vblank = true) (hhigh : p.nmiLevel = true)
    (hlow : (p.run stretch).nmiLevel = false) :
    ∃ before seen after, stretch = before ++ .dot seen :: after ∧
      (p.run before).controls.nmiEnabled = false := by
  induction stretch generalizing p with
  | nil => exact absurd (hhigh.symm.trans hlow) Bool.false_ne_true.symm
  | cons action rest ih =>
    rw [trace_cons, List.forall_mem_cons] at hstretch
    have hnext := (vblank_trace hstretch.2 hup).1
    cases hlevel : (p.act action).nmiLevel with
    | true =>
      obtain ⟨before, seen, after, rfl, hclear⟩ := ih hstretch.2 hup hlevel hlow
      exact ⟨action :: before, seen, after, rfl, hclear⟩
    | false =>
      cases action with
      | dot seen =>
        obtain ⟨hvblank, hsample, -⟩ := p.blank_act_dot seen
        rw [← hvblank, hnext, Bool.true_and] at hsample
        exact ⟨[], seen, rest, rfl, hsample.symm.trans hlevel⟩
      | read fetch index =>
        have hkept := (p.blank_act_read fetch index).2.1
        exact absurd (hhigh.symm.trans (hkept.symm.trans hlevel)) Bool.false_ne_true.symm
      | write index value =>
        have hkept := (p.blank_act_write index value).2.1
        exact absurd (hhigh.symm.trans (hkept.symm.trans hlevel)) Bool.false_ne_true.symm
      | reset => exact absurd hnext Bool.false_ne_true

/-- An enable bit that is clear is set by a write to the control register. -/
theorem exists_write_of_nmiEnabled {actions : List Action}
    (hclear : p.controls.nmiEnabled = false)
    (hset : (p.run actions).controls.nmiEnabled = true) :
    ∃ value, .write 0 value ∈ actions ∧ bit value 7 = true := by
  induction actions generalizing p with
  | nil => exact absurd (hclear.symm.trans hset) Bool.false_ne_true
  | cons action rest ih =>
    cases henabled : (p.act action).controls.nmiEnabled with
    | true =>
      rcases nmiEnabled_act henabled with hbefore | ⟨value, rfl, hbit⟩
      · exact absurd (hclear.symm.trans hbefore) Bool.false_ne_true
      · exact ⟨value, List.mem_cons_self, hbit⟩
    | false =>
      obtain ⟨value, hmem, hbit⟩ := ih henabled hset
      exact ⟨value, List.mem_cons_of_mem _ hmem, hbit⟩

/-- What lies between two requests of one vertical blank. -/
theorem exists_rearmed {first further : UInt16 → UInt8} {stretch : List Action}
    (hfirst : Event.requests ⟨p, .dot first⟩ = true)
    (hstretch : ∀ e ∈ (p.act (.dot first)).trace (stretch ++ [.dot further]),
      e.runs Beam.blankLine 1 = false)
    (hfurther : Event.requests ⟨p.run (.dot first :: stretch), .dot further⟩ = true) :
    (∀ e ∈ (p.act (.dot first)).trace stretch,
        e.chip.vblank = true ∧ e.action.isStatusRead = false) ∧
      ∃ before seen after value, stretch = before ++ .dot seen :: after ∧
        (p.run (.dot first :: before)).controls.nmiEnabled = false ∧
        .write 0 value ∈ after ∧ bit value 7 = true := by
  rw [trace_append, List.forall_mem_append, trace_cons, List.forall_mem_cons] at hstretch
  obtain ⟨hbetween, hlast, -⟩ := hstretch
  rw [requests_dot, Bool.and_eq_true, Bool.and_eq_true] at hfirst
  rw [requests_dot, Bool.and_eq_true, Bool.and_eq_true, Bool.not_eq_true'] at hfurther
  obtain ⟨⟨hsees, hset⟩, hlow⟩ := hfurther
  obtain ⟨-, hlevel, -⟩ := p.blank_act_dot first
  have hhigh : (p.act (.dot first)).nmiLevel = true := by
    rw [hlevel, hfirst.1.1, hfirst.1.2]
    rfl
  have hup : ((p.act (.dot first)).run stretch).vblank = true := by
    rw [← (blank_act_dot _ further).1] at hsees
    exact (vblank_act hlast hsees).1
  obtain ⟨before, seen, after, rfl, hclear⟩ := exists_dot_of_nmiLevel hbetween hup hhigh hlow
  rw [run_cons, run_append, run_cons] at hset
  have hstill := (blank_act_dot ((p.act (.dot first)).run before) seen).2.2.trans hclear
  obtain ⟨value, hwrite, hbit⟩ := exists_write_of_nmiEnabled hstill hset
  exact ⟨(vblank_trace hbetween hup).2, before, seen, after, value, rfl, hclear, hwrite, hbit⟩

/-! ## The discipline -/

/-- After any history since a reset: the flag is up in the vertical blank only. Until the vertical
blank starts anew at most one read of the status register finds it up. A dot that requests an
interrupt sees it up. From the end of one vertical blank to the end of the next, if nobody writes the
control register, the dot that starts the vertical blank requests one interrupt if that is wanted,
and no other dot does. And between two requests in one vertical blank the flag has been neither
taken down nor read, a dot has seen the enable bit clear, and after that a write has set it. -/
theorem blank_discipline (p : Ppu) (history : List Action) :
    let q := p.reset.run history
    (q.vblank = true → q.beam.inBlank = true) ∧
      (∀ stretch, (∀ e ∈ q.trace stretch, e.runs Beam.blankLine 1 = false) →
        ((q.trace stretch).filter Event.readsBlank).length ≤ 1) ∧
      (∀ fetch, (q.tick fetch).nmi = true → (q.tick fetch).ppu.vblank = true) ∧
      (∀ fetch stretch, q.beam.isAt Beam.preRenderLine 1 = true →
        (∀ e ∈ (q.act (.dot fetch)).trace stretch,
          e.runs Beam.preRenderLine 1 = false ∧ e.action.isControlWrite = false ∧
            e.action.isReset = false) →
        (q.run (.dot fetch :: stretch)).beam.isAt Beam.preRenderLine 1 = true →
        if q.controls.nmiEnabled then
          ∃ e, (q.trace (.dot fetch :: stretch)).filter Event.requests = [e] ∧
            e.runs Beam.blankLine 1 = true
        else (q.trace (.dot fetch :: stretch)).filter Event.requests = []) ∧
      (∀ first stretch further, Event.requests ⟨q, .dot first⟩ = true →
        (∀ e ∈ (q.act (.dot first)).trace (stretch ++ [.dot further]),
          e.runs Beam.blankLine 1 = false) →
        Event.requests ⟨q.run (.dot first :: stretch), .dot further⟩ = true →
        (∀ e ∈ (q.act (.dot first)).trace stretch,
            e.chip.vblank = true ∧ e.action.isStatusRead = false) ∧
          ∃ before seen after value, stretch = before ++ .dot seen :: after ∧
            (q.run (.dot first :: before)).controls.nmiEnabled = false ∧
            .write 0 value ∈ after ∧ bit value 7 = true) := by
  intro q
  have hblanking : q.IsBlanking := p.isBlanking_reset.run history
  refine ⟨hblanking.vblank, fun stretch hstretch ↦ ?_, fun fetch hnmi ↦ ?_,
    fun fetch stretch ↦ hblanking.requests_between fetch,
    fun first stretch further ↦ exists_rearmed⟩
  · exact Nat.le_trans (Nat.le_trans (Nat.le_add_right _ _) (length_blankReads_le hstretch))
      (Bool.toNat_le _)
  · have hrequests := (q.requests_dot fetch).symm.trans hnmi
    rw [Bool.and_eq_true, Bool.and_eq_true] at hrequests
    exact (q.blank_act_dot fetch).1.trans hrequests.1.1

/-- Dots alone come to the end of the next vertical blank. -/
theorem exists_stretch (fetch : UInt16 → UInt8) (h : p.beam.IsOnFrame) :
    ∃ stretch : List Action,
      (∀ e ∈ p.trace stretch,
        e.runs Beam.preRenderLine 1 = false ∧ e.action.isControlWrite = false ∧
          e.action.isReset = false) ∧
      (p.run stretch).beam.isAt Beam.preRenderLine 1 = true := by
  -- until the frame ends the dots left go down, and a frame starts one dot before the place
  obtain ⟨n, hn⟩ : ∃ n, (if p.beam.isAt Beam.preRenderLine 0 then 0 else p.beam.dotsLeft) = n :=
    ⟨_, rfl⟩
  induction n using Nat.strongRecOn generalizing p with
  | ind n ih =>
    have hframe := h.advance p.controls.rendering
    have hmove := p.beam_act_dot fetch
    cases hhere : p.beam.isAt Beam.preRenderLine 1 with
    | true => exact ⟨[], fun e he ↦ absurd he List.not_mem_nil, hhere⟩
    | false =>
      suffices hnext : ∃ stretch : List Action,
          (∀ e ∈ (p.act (.dot fetch)).trace stretch,
            e.runs Beam.preRenderLine 1 = false ∧ e.action.isControlWrite = false ∧
              e.action.isReset = false) ∧
          ((p.act (.dot fetch)).run stretch).beam.isAt Beam.preRenderLine 1 = true by
        obtain ⟨stretch, hstretch, hend⟩ := hnext
        refine ⟨.dot fetch :: stretch, ?_, hend⟩
        rw [trace_cons, List.forall_mem_cons]
        exact ⟨⟨hhere, rfl, rfl⟩, hstretch⟩
      cases hstart : p.beam.isAt Beam.preRenderLine 0 with
      | true =>
        refine ⟨[], fun e he ↦ absurd he List.not_mem_nil, ?_⟩
        simp only [Beam.isAt, Beam.preRenderLine, Bool.and_eq_true, beq_iff_eq] at hstart
        rw [run_nil, hmove]
        rcases p.beam.advance_cases p.controls.rendering with ⟨-, hlast, -, -⟩ | ⟨-, hgoes⟩ |
          ⟨hend, -, -⟩ | ⟨hend, -, -⟩
        · omega
        · rw [hgoes, Beam.isAt, hstart.1, hstart.2]
          rfl
        · omega
        · omega
      | false =>
        rw [hstart, if_neg Bool.false_ne_true] at hn
        refine ih _ ?_ (by rw [hmove]; exact hframe) rfl
        have hpos := h.dotsLeft_pos
        rw [hmove]
        rcases h.advance_end p.controls.rendering with ⟨-, hline, hdot, -⟩ | ⟨-, -, hless⟩
        · rw [Beam.isAt, hline, hdot, if_pos (by decide)]
          omega
        · split
          · omega
          · omega

/-- The first vertical blank of a chip that has been told to ask for interrupts. -/
theorem blank_discipline_enabled :
    ∃ (q : Ppu) (stretch : List Action) (e : Event),
      q = (powerOn .ntsc).reset.run [.write 0 0x80, .dot openBus] ∧
        q.beam.isAt Beam.preRenderLine 1 = true ∧
        (q.run (.dot openBus :: stretch)).beam.isAt Beam.preRenderLine 1 = true ∧
        (q.trace (.dot openBus :: stretch)).filter Event.requests = [e] ∧
        e.runs Beam.blankLine 1 = true := by
  obtain ⟨q, hq⟩ : ∃ q, q = (powerOn .ntsc).reset.run [.write 0 0x80, .dot openBus] := ⟨_, rfl⟩
  have hplace : q.beam.isAt Beam.preRenderLine 1 = true := by
    rw [hq, run_cons, run_cons, run_nil, beam_act_dot, (blank_act_write _ _ _).1]
    rfl
  have hwanted : q.controls.nmiEnabled = true := by
    rw [hq, run_cons, run_cons, run_nil, (blank_act_dot _ _).2.2, (blank_act_write _ _ _).2.2.2]
    decide
  have hframe : (q.act (.dot openBus)).beam.IsOnFrame := by
    rw [hq]
    exact (((powerOn .ntsc).isBlanking_reset.run _).act _).onFrame
  obtain ⟨stretch, hstretch, hlast⟩ := exists_stretch openBus hframe
  obtain ⟨-, -, -, hbetween, -⟩ :=
    blank_discipline (powerOn .ntsc) [.write 0 0x80, .dot openBus]
  rw [← hq] at hbetween
  have hone := hbetween openBus stretch hplace hstretch hlast
  rw [if_pos hwanted] at hone
  obtain ⟨e, hrequests, hruns⟩ := hone
  exact ⟨q, stretch, e, hq, hplace, hlast, hrequests, hruns⟩

end Ppu

end Famicom
