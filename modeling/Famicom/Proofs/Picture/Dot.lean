import Famicom.Picture.Ppu

/-!
# What a dot changes

A dot of the picture chip moves the scroll address in use, fetches into the latch, the shift
registers and the selection of sprites, draws, samples the interrupt output and moves the beam. What
a program has set stays as it is. `Ppu.tick_eq` says so, together with what becomes of the vertical
blank, the interrupt output and the beam, which need none of the rest.

The second part follows the beam. `Beam.IsOnFrame` bounds its place, and `Beam.blankAge` counts
the dots since the line on which the vertical blank starts.
-/

namespace Famicom

namespace Ppu

variable (p : Ppu) (fetch : UInt16 → UInt8)

theorem updateStatus_eq :
    ∃ spriteHit spriteOverflow,
      p.updateStatus =
        { p with vblank := p.updateStatus.vblank, spriteHit, spriteOverflow } := by
  unfold updateStatus
  split
  · exact ⟨_, _, rfl⟩
  · split
    · exact ⟨_, _, rfl⟩
    · exact ⟨_, _, rfl⟩

theorem shift_eq : ∃ shifters, p.shift = { p with shifters } := by
  unfold shift
  split
  · exact ⟨_, rfl⟩
  · exact ⟨_, rfl⟩

theorem fetchTile_eq (dot : Nat) :
    ∃ v latch shifters,
      p.fetchTile fetch dot = { p with controls := { p.controls with v }, latch, shifters } := by
  unfold fetchTile
  split
  all_goals exact ⟨_, _, _, rfl⟩

theorem scroll_eq (dot : Nat) :
    ∃ v shifters, p.scroll dot = { p with controls := { p.controls with v }, shifters } := by
  unfold scroll
  split
  · exact ⟨_, _, rfl⟩
  · split
    · exact ⟨_, _, rfl⟩
    · split
      · exact ⟨_, _, rfl⟩
      · exact ⟨_, _, rfl⟩

theorem selectSprites_eq :
    ∃ selected spriteOverflow,
      p.selectSprites fetch =
        { p with sprites := { p.sprites with selected }, spriteOverflow } :=
  ⟨_, _, rfl⟩

/-- The fetches of a dot leave what a program has set. -/
theorem fetchDot_eq :
    ∃ v selected spriteOverflow latch shifters,
      p.fetchDot fetch =
        { p with
          controls := { p.controls with v }
          sprites := { p.sprites with selected }
          spriteOverflow, latch, shifters } := by
  have hpipeline : ∃ v latch shifters,
      (if isFetchDot p.beam.dot then p.shift.fetchTile fetch p.beam.dot else p) =
        { p with controls := { p.controls with v }, latch, shifters } := by
    split
    · obtain ⟨_, hshift⟩ := p.shift_eq
      rw [hshift]
      exact fetchTile_eq _ fetch _
    · exact ⟨_, _, _, rfl⟩
  obtain ⟨v, latch, shifters, hpipeline⟩ := hpipeline
  unfold fetchDot
  dsimp only
  rw [hpipeline]
  obtain ⟨v', shifters', hscroll⟩ := scroll_eq
    { p with controls := { p.controls with v }, latch, shifters } p.beam.dot
  rw [hscroll]
  split
  · obtain ⟨selected, overflow, hselect⟩ := selectSprites_eq
      { p with controls := { p.controls with v := v' }, latch, shifters := shifters' } fetch
    exact ⟨_, _, _, _, _, hselect⟩
  · exact ⟨_, _, _, _, _, rfl⟩

theorem drawDot_eq : ∃ spriteHit frame, p.drawDot = { p with spriteHit, frame } := by
  unfold drawDot
  dsimp only
  split
  · unfold drawPixel
    split
    · exact ⟨_, _, rfl⟩
    · exact ⟨_, _, rfl⟩
  · exact ⟨_, _, rfl⟩

/-- The chip after the status flags and the fetches of a dot, about to draw. -/
def fetched : Ppu :=
  if p.controls.rendering && p.beam.onRenderLine then p.updateStatus.fetchDot fetch
  else p.updateStatus

theorem fetched_eq :
    ∃ v spriteHit spriteOverflow selected latch shifters,
      p.fetched fetch =
        { p with
          controls := { p.controls with v }
          vblank := p.updateStatus.vblank
          sprites := { p.sprites with selected }
          spriteHit, spriteOverflow, latch, shifters } := by
  obtain ⟨spriteHit, spriteOverflow, hstatus⟩ := p.updateStatus_eq
  obtain ⟨v, selected, overflow, latch, shifters, hfetch⟩ := p.updateStatus.fetchDot_eq fetch
  unfold fetched
  split
  · rw [hfetch, hstatus]
    exact ⟨_, _, _, _, _, _, rfl⟩
  · rw [hstatus]
    exact ⟨_, _, _, _, _, _, rfl⟩

theorem tick_fetched :
    p.tick fetch =
      let q := (p.fetched fetch).drawDot
      let sampled := q.sampleNmi
      let moved := sampled.2.moveBeam p.controls.rendering
      ⟨moved.2, sampled.1, moved.1⟩ := by
  have hbeam : p.updateStatus.beam = p.beam := by
    obtain ⟨_, _, hstatus⟩ := p.updateStatus_eq
    rw [hstatus]
  unfold tick fetched
  dsimp only
  rw [hbeam]

theorem moveBeam_eq (rendering : Bool) :
    ∃ frame,
      p.moveBeam rendering =
        ((p.beam.advance rendering).1,
          { p with beam := (p.beam.advance rendering).2, frame }) := by
  unfold moveBeam
  dsimp only
  split
  · exact ⟨_, rfl⟩
  · exact ⟨_, rfl⟩

/-- A dot leaves what a program has set. It samples the interrupt output that the new status gives,
and asks for an interrupt where that has risen. -/
theorem tick_eq :
    (∃ v spriteHit spriteOverflow selected latch shifters frame,
      (p.tick fetch).ppu =
        { p with
          beam := (p.beam.advance p.controls.rendering).2
          controls := { p.controls with v }
          vblank := p.updateStatus.vblank
          sprites := { p.sprites with selected }
          nmiLevel := p.updateStatus.vblank && p.controls.nmiEnabled
          spriteHit, spriteOverflow, latch, shifters, frame }) ∧
      (p.tick fetch).nmi = (p.updateStatus.vblank && p.controls.nmiEnabled && !p.nmiLevel) ∧
      (p.tick fetch).frameDone = (p.beam.advance p.controls.rendering).1 := by
  obtain ⟨v, _, spriteOverflow, selected, latch, shifters, hfetched⟩ := p.fetched_eq fetch
  obtain ⟨spriteHit, _, hdraw⟩ := (p.fetched fetch).drawDot_eq
  obtain ⟨frame, hmove⟩ :=
    (p.fetched fetch).drawDot.sampleNmi.2.moveBeam_eq p.controls.rendering
  rw [tick_fetched]
  dsimp only
  rw [hmove, hdraw, hfetched]
  exact ⟨⟨v, spriteHit, spriteOverflow, selected, latch, shifters, frame, rfl⟩, rfl, rfl⟩

end Ppu

/-! ## The way of the beam -/

namespace Beam

variable {b : Beam}

/-- The beam is on a line and a dot of a frame. -/
structure IsOnFrame (b : Beam) : Prop where
  line_ge : -1 ≤ b.line
  line_le : b.line ≤ b.lastLine
  dot_lt : b.dot < Television.dotsPerLine

theorem lastLine_eq (b : Beam) : b.lastLine = b.television.lines - 2 := rfl

theorem television_lines (tv : Television) : 262 ≤ tv.lines := by cases tv <;> decide

/-- Where the beam goes: on the line, over a dot that is left out, to the next line, or to the next
frame. -/
theorem advance_cases (b : Beam) (rendering : Bool) :
    (b.line = -1 ∧ b.dot = 339 ∧ b.dropsDot rendering = true ∧
        b.advance rendering = (false, { b with line := 0, dot := 0 })) ∨
      (b.dot + 1 < 341 ∧ b.advance rendering = (false, { b with dot := b.dot + 1 })) ∨
      (341 ≤ b.dot + 1 ∧ b.line < b.lastLine ∧
        b.advance rendering = (false, { b with line := b.line + 1, dot := 0 })) ∨
      (341 ≤ b.dot + 1 ∧ b.lastLine ≤ b.line ∧
        b.advance rendering =
          (true, { b with
            line := -1, dot := 0, oddFrame := !b.oddFrame, frames := b.frames + 1 })) := by
  unfold advance
  by_cases hdrop : b.dropsDot rendering = true
  · have hplace : b.line = -1 ∧ b.dot = 339 := by
      simp only [dropsDot, isAt, Bool.and_eq_true, beq_iff_eq] at hdrop
      exact ⟨hdrop.1.1.1.1, hdrop.1.1.1.2⟩
    rw [if_pos hdrop]
    exact Or.inl ⟨hplace.1, hplace.2, hdrop, rfl⟩
  · rw [if_neg hdrop]
    by_cases hdot : b.dot + 1 < Television.dotsPerLine
    · rw [if_pos hdot]
      exact Or.inr (Or.inl ⟨hdot, rfl⟩)
    · rw [if_neg hdot]
      by_cases hline : b.line < b.lastLine
      · rw [if_pos hline]
        exact Or.inr (Or.inr (Or.inl ⟨Nat.le_of_not_lt hdot, hline, rfl⟩))
      · rw [if_neg hline]
        exact Or.inr (Or.inr (Or.inr ⟨Nat.le_of_not_lt hdot, Int.not_lt.mp hline, rfl⟩))

@[simp] theorem television_advance (b : Beam) (rendering : Bool) :
    (b.advance rendering).2.television = b.television := by
  rcases b.advance_cases rendering with ⟨-, -, -, h⟩ | ⟨-, h⟩ | ⟨-, -, h⟩ | ⟨-, -, h⟩ <;> rw [h]

theorem IsOnFrame.advance (h : b.IsOnFrame) (rendering : Bool) :
    (b.advance rendering).2.IsOnFrame := by
  obtain ⟨hge, hle, hdot⟩ := h
  have hlines := television_lines b.television
  rw [lastLine_eq] at hle
  rcases b.advance_cases rendering with ⟨hline, -, -, h⟩ | ⟨hnext, h⟩ | ⟨-, hline, h⟩ |
    ⟨-, -, h⟩ <;> rw [h]
  · exact ⟨by dsimp only; omega, by rw [lastLine_eq]; dsimp only; omega, Nat.zero_lt_succ _⟩
  · exact ⟨hge, hle, hnext⟩
  · rw [lastLine_eq] at hline
    exact ⟨by dsimp only; omega, by rw [lastLine_eq]; dsimp only; omega, Nat.zero_lt_succ _⟩
  · exact ⟨Int.le_refl _, by rw [lastLine_eq]; dsimp only; omega, Nat.zero_lt_succ _⟩

theorem isOnFrame_reset (b : Beam) : b.reset.IsOnFrame := by
  have hlines := television_lines b.television
  refine ⟨Int.le_refl _, ?_, Nat.zero_lt_succ _⟩
  rw [lastLine_eq]
  change -1 ≤ (b.television.lines : Int) - 2
  omega

/-- The dots since the line on which the vertical blank starts, in a frame of full length. Until the
visible lines, where a dot may have been left out, one is added. -/
def blankAge (b : Beam) : Nat :=
  if 241 ≤ b.line then 341 * (b.line - 241).toNat + b.dot + 1
  else if b.line < 0 then 341 * (b.television.lines - 242) + b.dot + 1
  else 341 * (b.line.toNat + b.television.lines - 241) + b.dot

/-- The age at which the vertical blank ends. -/
def blankEnd (tv : Television) : Nat := 341 * (tv.lines - 242) + 2

/-- A dot adds one to the age until the next vertical blank, but for the last dot of a pre-render
line that has its full length. -/
theorem blankAge_advance (h : b.IsOnFrame) (rendering : Bool) :
    (b.line = 240 ∧ b.dot = 340) ∨
      (b.line = -1 ∧ b.dot = 340 ∧ (b.advance rendering).2.blankAge = b.blankAge) ∨
      (b.advance rendering).2.blankAge = b.blankAge + 1 := by
  obtain ⟨hge, hle, hdot⟩ := h
  have hlines := television_lines b.television
  rw [lastLine_eq] at hle
  rw [Television.dotsPerLine] at hdot
  rcases b.advance_cases rendering with ⟨hline, hdrop, -, h⟩ | ⟨hnext, h⟩ | ⟨hend, hline, h⟩ |
    ⟨hend, hline, h⟩ <;> rw [h] <;> unfold blankAge <;> dsimp only
  · refine Or.inr (Or.inr ?_)
    rw [if_neg (by omega), if_neg (by omega), if_neg (by omega), if_pos (by omega)]
    omega
  · refine Or.inr (Or.inr ?_)
    split
    · omega
    · split <;> omega
  · -- the next line: the one added before the visible lines is given back at their start
    by_cases hblank : b.line = 240
    · exact Or.inl ⟨hblank, by omega⟩
    · by_cases hlate : 241 ≤ b.line
      · refine Or.inr (Or.inr ?_)
        rw [if_pos (by omega), if_pos hlate]
        omega
      · by_cases hpre : b.line < 0
        · refine Or.inr (Or.inl ⟨by omega, by omega, ?_⟩)
          rw [if_neg (by omega), if_neg (by omega), if_neg hlate, if_pos hpre]
          omega
        · refine Or.inr (Or.inr ?_)
          rw [if_neg (by omega), if_neg (by omega), if_neg hlate, if_neg hpre]
          omega
  · refine Or.inr (Or.inr ?_)
    rw [lastLine_eq] at hline
    rw [if_neg (by omega), if_pos (by omega), if_pos (by omega)]
    omega

theorem blankAge_of_isAt_blank (h : b.isAt blankLine 1 = true) : b.blankAge = 2 := by
  simp only [isAt, blankLine, Bool.and_eq_true, beq_iff_eq] at h
  unfold blankAge
  rw [if_pos (by omega), h.1, h.2]
  rfl

theorem blankAge_of_isAt_end (hframe : b.IsOnFrame) (h : b.blankAge = blankEnd b.television) :
    b.isAt preRenderLine 1 = true := by
  obtain ⟨hge, hle, hdot⟩ := hframe
  have hlines := television_lines b.television
  rw [lastLine_eq] at hle
  rw [Television.dotsPerLine] at hdot
  simp only [isAt, preRenderLine, Bool.and_eq_true, beq_iff_eq]
  unfold blankAge blankEnd at h
  split at h
  · omega
  · split at h <;> omega

/-- The line before that of the vertical blank ends long after the vertical blank has. -/
theorem blankEnd_lt_blankAge (hline : b.line = 240) :
    341 * (b.television.lines - 1) ≤ b.blankAge := by
  have hlines := television_lines b.television
  unfold blankAge
  rw [if_neg (by omega), if_neg (by omega), hline]
  have : (240 : Int).toNat = 240 := rfl
  omega

end Beam

/-! ## The vertical blank -/

namespace Ppu

variable {p : Ppu}

/-- The flag of the vertical blank is up between its two dots only. -/
def BlankInTime (p : Ppu) : Prop :=
  p.vblank = true → 3 ≤ p.beam.blankAge ∧ p.beam.blankAge ≤ Beam.blankEnd p.beam.television

/-- Only the dot that starts the vertical blank sets its flag. -/
theorem vblank_of_updateStatus (hage : 3 ≤ p.beam.blankAge)
    (h : p.updateStatus.vblank = true) : p.vblank = true := by
  unfold updateStatus at h
  by_cases hstart : p.beam.isAt Beam.blankLine 1 = true
  · rw [Beam.blankAge_of_isAt_blank hstart] at hage
    omega
  · rw [if_neg hstart] at h
    split at h
    · exact absurd h Bool.false_ne_true
    · exact h

theorem BlankInTime.tick (h : p.BlankInTime) (hframe : p.beam.IsOnFrame)
    (fetch : UInt16 → UInt8) : (p.tick fetch).ppu.BlankInTime := by
  obtain ⟨⟨v, hit, overflow, selected, latch, shifters, frame, htick⟩, -, -⟩ := p.tick_eq fetch
  have hage := Beam.blankAge_advance hframe p.controls.rendering
  have hlines := Beam.television_lines p.beam.television
  rw [htick]
  unfold BlankInTime updateStatus
  dsimp only
  rw [Beam.television_advance]
  intro hvblank
  by_cases hstart : p.beam.isAt Beam.blankLine 1 = true
  · have htwo := Beam.blankAge_of_isAt_blank hstart
    have hplace : p.beam.line = 241 ∧ p.beam.dot = 1 := by
      simpa only [Beam.isAt, Beam.blankLine, Bool.and_eq_true, beq_iff_eq] using hstart
    unfold Beam.blankEnd
    omega
  · rw [if_neg hstart] at hvblank
    by_cases hend : p.beam.isAt Beam.preRenderLine 1 = true
    · rw [if_pos hend] at hvblank
      exact absurd hvblank Bool.false_ne_true
    · rw [if_neg hend] at hvblank
      obtain ⟨hthree, hle⟩ := h hvblank
      -- at the last age the beam is where the flag falls, so here it is younger
      have hne : p.beam.blankAge ≠ Beam.blankEnd p.beam.television :=
        fun heq ↦ hend (Beam.blankAge_of_isAt_end hframe heq)
      rcases hage with ⟨hline, -⟩ | ⟨-, -, hsame⟩ | hnext
      · have hlate := Beam.blankEnd_lt_blankAge hline
        unfold Beam.blankEnd at hle
        omega
      · omega
      · omega

end Ppu

end Famicom
