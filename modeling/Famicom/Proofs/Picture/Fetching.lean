import Famicom.Proofs.Picture.Pipeline

/-!
# The fetches of a line

On a line that is drawn the beam passes five stretches. Up to dot 256 the pipeline draws; there the
address in use moves a line down, and at dot 257 back to the column of `t`, which makes it the start
of the next line, and the sprites of that line are selected. From dot 321 on the pipeline fetches
the first two tiles ahead. The pre-render line does the same for the first line, with the row of `t`
in place of a step down.

`Ppu.Fetching` says for every place of the beam what the chip holds there. It is kept by every dot
(`Fetching.fetched`), and it is all that a pixel needs to know of the dots before it.
-/

namespace Famicom

namespace Ppu

variable {p q r : Ppu} {fetch : UInt16 → UInt8} {line : Int} {dot : Nat}

/-! ## The fetches of a dot, by stretches -/

/-- The dots on which the row of `t` is taken over. -/
def RestoresRow (line : Int) (dot : Nat) : Prop := 280 ≤ dot ∧ dot ≤ 304 ∧ line = -1

theorem isFetchDot_eq_true (dot : Nat) :
    isFetchDot dot = true ↔ 2 ≤ dot ∧ dot ≤ 257 ∨ 321 ≤ dot ∧ dot ≤ 337 := by
  simp only [isFetchDot, Bool.or_eq_true, Bool.and_eq_true, decide_eq_true_eq]

theorem scroll_idle (hlast : dot ≠ 256) (hend : dot ≠ 257) (hrow : ¬RestoresRow q.beam.line dot) :
    q.scroll dot = q := by
  unfold scroll
  rw [if_neg hlast, if_neg hend]
  exact if_neg hrow

theorem scroll_row (hlast : dot ≠ 256) (hend : dot ≠ 257) (hrow : RestoresRow q.beam.line dot) :
    q.scroll dot = { q with controls := q.controls.restoreRow } := by
  unfold scroll
  rw [if_neg hlast, if_neg hend]
  exact if_pos hrow

theorem fetchDot_idle (h : isFetchDot q.beam.dot = false)
    (hrow : ¬RestoresRow q.beam.line q.beam.dot) : q.fetchDot fetch = q := by
  have hdot : ¬(2 ≤ q.beam.dot ∧ q.beam.dot ≤ 257) := fun hin ↦
    Bool.false_ne_true (h.symm.trans ((isFetchDot_eq_true _).mpr (Or.inl hin)))
  unfold fetchDot
  dsimp only
  rw [h, if_neg Bool.false_ne_true, if_neg (by omega), scroll_idle (by omega) (by omega) hrow]

theorem fetchDot_restoreRow (hrow : RestoresRow q.beam.line q.beam.dot) :
    q.fetchDot fetch = { q with controls := q.controls.restoreRow } := by
  have hlow := hrow.1
  have hidle : isFetchDot q.beam.dot = false := by
    have hhigh := hrow.2.1
    rw [← Bool.not_eq_true, isFetchDot_eq_true]
    omega
  unfold fetchDot
  dsimp only
  rw [hidle, if_neg Bool.false_ne_true, if_neg (by omega), scroll_row (by omega) (by omega) hrow]

theorem fetchTile_shift_eq (q : Ppu) (fetch : UInt16 → UInt8) (dot : Nat) :
    (q.shift.fetchTile fetch dot).beam = q.beam ∧
      (q.shift.fetchTile fetch dot).sprites = q.sprites := by
  obtain ⟨_, hshift⟩ := q.shift_eq
  obtain ⟨_, _, _, htile⟩ := q.shift.fetchTile_eq fetch dot
  rw [htile, hshift]
  exact ⟨rfl, rfl⟩

theorem fetchDot_pipeline (h : isFetchDot q.beam.dot = true) (hlast : q.beam.dot ≠ 256)
    (hend : q.beam.dot ≠ 257) : q.fetchDot fetch = q.shift.fetchTile fetch q.beam.dot := by
  have hdots := (isFetchDot_eq_true _).mp h
  have hrow : ¬RestoresRow (q.shift.fetchTile fetch q.beam.dot).beam.line q.beam.dot := by
    unfold RestoresRow
    omega
  unfold fetchDot
  dsimp only
  rw [h, if_pos rfl, if_neg hend, scroll_idle hlast hend hrow]

theorem fetchDot_last (h : q.beam.dot = 256) :
    q.fetchDot fetch =
      { q.shift.fetchTile fetch 256 with
        controls := (q.shift.fetchTile fetch 256).controls.nextLine } := by
  unfold fetchDot
  dsimp only
  rw [h, if_pos (show isFetchDot 256 = true from rfl), if_neg (by decide)]
  rfl

/-- At the end of a line the address takes the column of `t`, and the sprites of the next line are
selected. -/
theorem fetchDot_end (fetch : UInt16 → UInt8) (h : q.beam.dot = 257) :
    ∃ shifters latch spriteOverflow,
      q.fetchDot fetch =
        { q with
          controls := q.controls.restoreColumn
          sprites := q.sprites.load
            (q.sprites.evaluate q.beam.line q.controls.spriteHeight) q.beam.line
            q.controls.spriteHeight q.controls.spriteTable fetch
          shifters, latch, spriteOverflow } := by
  obtain ⟨shifters, hshift⟩ := q.shift_eq
  unfold fetchDot
  dsimp only
  rw [h, if_pos (show isFetchDot 257 = true from rfl), if_pos rfl, hshift]
  exact ⟨_, _, _, rfl⟩

/-! ## What is fetched -/

theorem Stage.congr {y σ : Nat} (h : p.Stage fetch y σ q) (hv : r.controls.v = q.controls.v)
    (hlatch : r.latch = q.latch) (hshifters : r.shifters = q.shifters) :
    p.Stage fetch y σ r := by
  obtain ⟨h1, h2, h3, h4, h5, h6⟩ := h
  rw [← hv] at h1
  rw [← hlatch] at h2 h3 h4 h5
  rw [← hshifters] at h6
  exact ⟨h1, h2, h3, h4, h5, h6⟩

/-- The first step of a line, from the address where it starts. -/
theorem stage_zero (fetch : UInt16 → UInt8) {y : Nat} (hsetup : p.SharesSetup q)
    (hv : q.controls.v = p.controls.t.move y 0) :
    p.Stage fetch y 0 (q.shift.fetchTile fetch 321) := by
  obtain ⟨shifters, hshift⟩ := q.shift_eq
  rw [hshift]
  refine ⟨hv, ?_, fun hle ↦ by omega, fun hle ↦ by omega, fun hle ↦ by omega,
    fun _ ↦ Shifters.shows_zero _ _⟩
  change q.readSpace fetch q.controls.v.tileAddress = _
  rw [hsetup.readSpace, hv]

/-- What the chip has fetched of the picture of `p` when the beam is about to run a dot, while the
picture is rendered. -/
structure Fetching (p : Ppu) (fetch : UInt16 → UInt8) (line : Int) (dot : Nat) (q : Ppu) :
    Prop where
  /-- The pipeline draws line `y`. -/
  drawing : ∀ y : Nat, line = y → y < 240 → dot ≤ 256 → p.Stage fetch y (max dot 2 + 14) q
  /-- The line has been drawn, and the address has moved down. -/
  lineEnd : ∀ y : Nat, line = y → y < 240 → dot = 257 →
    q.controls.v.withColumnOf p.controls.t = p.controls.t.move (y + 1) 0 ∧
      (p.controls.showsBackground = true → q.shifters.Shows (p.rowAt fetch y) 271)
  /-- On the pre-render line the column is taken over before the row. -/
  column : line = -1 → 258 ≤ dot → dot ≤ 280 →
    q.controls.v.withColumnOf p.controls.t = q.controls.v
  /-- The address is where line `y` starts. -/
  next : ∀ y : Nat, line + 1 = y → y ≤ 240 → (y = 0 → 281 ≤ dot) → 258 ≤ dot → dot ≤ 321 →
    q.controls.v = p.controls.t.move y 0
  /-- The pipeline fetches the first tiles of line `y`. -/
  ahead : ∀ y : Nat, line + 1 = y → y ≤ 240 → 322 ≤ dot →
    p.Stage fetch y (min (dot - 322) 16) q
  /-- The sprites of line `y` are selected while it is drawn. -/
  shown : ∀ y : Nat, line = y → y < 240 → dot ≤ 257 →
    q.sprites.selected = p.selection fetch y
  /-- They have been selected on the line before. -/
  selected : ∀ y : Nat, line + 1 = y → y ≤ 240 → 258 ≤ dot →
    q.sprites.selected = p.selection fetch y

namespace Fetching

theorem congr (h : p.Fetching fetch line dot q) (hv : r.controls.v = q.controls.v)
    (hlatch : r.latch = q.latch) (hshifters : r.shifters = q.shifters)
    (hsprites : r.sprites.selected = q.sprites.selected) : p.Fetching fetch line dot r := by
  constructor
  case drawing =>
    intro y hline hy hdot
    exact (h.drawing y hline hy hdot).congr hv hlatch hshifters
  case lineEnd =>
    rw [hv, hshifters]
    exact h.lineEnd
  case column =>
    rw [hv]
    exact h.column
  case next =>
    rw [hv]
    exact h.next
  case ahead =>
    intro y hline hy hdot
    exact (h.ahead y hline hy hdot).congr hv hlatch hshifters
  case shown =>
    rw [hsprites]
    exact h.shown
  case selected =>
    rw [hsprites]
    exact h.selected

/-- At the start of a frame nothing has been fetched for it. -/
theorem start (p q : Ppu) (fetch : UInt16 → UInt8) : p.Fetching fetch (-1) 0 q := by
  constructor <;> intros <;> omega

/-- Below the picture nothing is fetched. -/
theorem below (hline : 240 ≤ line) : p.Fetching fetch line dot q := by
  constructor <;> intros <;> omega

/-- The first tiles of the next line are there when it begins. -/
theorem nextLine (h : p.Fetching fetch line dot q) (hdot : 338 ≤ dot) :
    p.Fetching fetch (line + 1) 0 q := by
  constructor
  case drawing =>
    intro y hline hy _
    have hstage := h.ahead y hline (by omega) (by omega)
    rwa [show min (dot - 322) 16 = max 0 2 + 14 by omega] at hstage
  case shown =>
    intro y hline hy _
    exact h.selected y hline (by omega) (by omega)
  all_goals
    intros
    omega

/-- While column `x` of line `y` is drawn the registers hold that line, moved by `x`. -/
theorem shows {x y : Nat} (h : p.Fetching fetch y (x + 2) q) (hx : x < 256) (hy : y < 240)
    (hshows : p.controls.showsBackground = true) :
    q.shifters.Shows (p.rowAt fetch y) (x + 16) := by
  rcases Nat.lt_or_ge x 255 with hinside | hlast
  · have hstage := h.drawing y rfl hy (by omega)
    rw [show max (x + 2) 2 + 14 = x + 16 by omega] at hstage
    exact hstage.shifters hshows
  · obtain rfl : x = 255 := by omega
    exact (h.lineEnd y rfl hy rfl).2 hshows

variable (hsetup : p.SharesSetup q) (h : p.Fetching fetch q.beam.line q.beam.dot q)

include h

/-- A dot without fetches. -/
theorem idle (hidle : isFetchDot q.beam.dot = false)
    (hrow : ¬RestoresRow q.beam.line q.beam.dot) :
    p.Fetching fetch q.beam.line (q.beam.dot + 1) q := by
  have hdots : ¬(2 ≤ q.beam.dot ∧ q.beam.dot ≤ 257 ∨ 321 ≤ q.beam.dot ∧ q.beam.dot ≤ 337) := by
    intro hin
    exact Bool.false_ne_true (hidle.symm.trans ((isFetchDot_eq_true _).mpr hin))
  unfold RestoresRow at hrow
  constructor
  case drawing =>
    intro y hline hy hdot
    have hstage := h.drawing y hline hy (by omega)
    rwa [show max q.beam.dot 2 = max (q.beam.dot + 1) 2 by omega] at hstage
  case column =>
    intro hline hlow hhigh
    exact h.column hline (by omega) (by omega)
  case next =>
    -- the address of line 0 is there from dot 281 on, and `hrow` excludes dot 280
    intro y hline hy hzero hlow hhigh
    exact h.next y hline hy (by omega) (by omega) (by omega)
  case ahead =>
    intro y hline hy hdot
    have hstage := h.ahead y hline hy (by omega)
    rwa [show min (q.beam.dot - 322) 16 = min (q.beam.dot + 1 - 322) 16 by omega] at hstage
  case shown =>
    intro y hline hy hdot
    exact h.shown y hline hy (by omega)
  case selected =>
    intro y hline hy hdot
    exact h.selected y hline hy (by omega)
  all_goals
    intros
    omega

/-- A dot on which the row of `t` is taken over. -/
theorem restoreRow (hrow : RestoresRow q.beam.line q.beam.dot) (ht : q.controls.t = p.controls.t) :
    p.Fetching fetch q.beam.line (q.beam.dot + 1)
      { q with controls := q.controls.restoreRow } := by
  obtain ⟨hlow, hhigh, hpre⟩ := hrow
  -- the first of these dots completes the address, the others find it complete
  have hv : q.controls.v.withRowOf q.controls.t = p.controls.t := by
    rw [ht]
    refine ScrollAddress.withRowOf_of_column ?_
    rcases Nat.lt_or_ge 280 q.beam.dot with hlater | hfirst
    · have hnext := h.next 0 (by omega) (by omega) (by omega) (by omega) (by omega)
      rw [hnext]
      rfl
    · exact h.column hpre (by omega) hfirst
  constructor
  case next =>
    intro y hline hy hzero hlow hhigh
    obtain rfl : y = 0 := by omega
    exact hv
  case selected =>
    intro y hline hy hdot
    exact h.selected y hline hy (by omega)
  all_goals
    intros
    omega

include hsetup

/-- A dot of the pipeline, of which the last of a line stands apart. -/
theorem pipeline (hfetch : isFetchDot q.beam.dot = true) (hlast : q.beam.dot ≠ 256)
    (hend : q.beam.dot ≠ 257) :
    p.Fetching fetch q.beam.line (q.beam.dot + 1) (q.shift.fetchTile fetch q.beam.dot) := by
  have hdots := (isFetchDot_eq_true _).mp hfetch
  obtain ⟨-, hsprites⟩ := q.fetchTile_shift_eq fetch q.beam.dot
  constructor
  case drawing =>
    intro y hline hy hdot
    have hstage := (h.drawing y hline hy (by omega)).fetchTile hsetup q.beam.dot (by omega)
    rwa [show max q.beam.dot 2 + 14 + 1 = max (q.beam.dot + 1) 2 + 14 by omega] at hstage
  case ahead =>
    intro y hline hy hdot
    rcases Nat.lt_or_ge 321 q.beam.dot with hlater | hfirst
    · have hstage := (h.ahead y hline hy (by omega)).fetchTile hsetup q.beam.dot (by omega)
      rwa [show min (q.beam.dot - 322) 16 + 1 = min (q.beam.dot + 1 - 322) 16 by omega] at hstage
    · have hdot321 : q.beam.dot = 321 := by omega
      have hstage :=
        stage_zero fetch hsetup (h.next y hline hy (by omega) (by omega) (by omega))
      rw [hdot321]
      exact hstage
  case shown =>
    intro y hline hy hdot
    rw [hsprites]
    exact h.shown y hline hy (by omega)
  case selected =>
    intro y hline hy hdot
    rw [hsprites]
    exact h.selected y hline hy (by omega)
  all_goals
    intros
    omega

/-- The last dot of the pipeline on a line, which moves the address down. -/
theorem last (hdot : q.beam.dot = 256) :
    p.Fetching fetch q.beam.line (q.beam.dot + 1)
      { q.shift.fetchTile fetch 256 with
        controls := (q.shift.fetchTile fetch 256).controls.nextLine } := by
  obtain ⟨-, hsprites⟩ := q.fetchTile_shift_eq fetch 256
  constructor
  case lineEnd =>
    intro y hline hy _
    have hstage := (h.drawing y hline hy (by omega)).fetchTile hsetup 256 (by rw [hdot]; rfl)
    rw [hdot] at hstage
    refine ⟨?_, hstage.shifters⟩
    change (q.shift.fetchTile fetch 256).controls.v.nextLine.withColumnOf _ = _
    rw [ScrollAddress.withColumnOf_nextLine, hstage.v, ScrollAddress.withColumnOf_move,
      ScrollAddress.move_line]
  case shown =>
    intro y hline hy _
    change (q.shift.fetchTile fetch 256).sprites.selected = _
    rw [hsprites]
    exact h.shown y hline hy (by omega)
  all_goals
    intros
    omega

/-- The end of the fetches of a line, where the next one is made ready. -/
theorem lineEnds (hdot : q.beam.dot = 257) :
    p.Fetching fetch q.beam.line (q.beam.dot + 1) (q.fetchDot fetch) := by
  obtain ⟨shifters, latch, spriteOverflow, hend⟩ := fetchDot_end fetch hdot
  rw [hend]
  constructor
  case column =>
    intro hline hlow hhigh
    change (q.controls.v.withColumnOf q.controls.t).withColumnOf p.controls.t =
      q.controls.v.withColumnOf q.controls.t
    rw [hsetup.t]
    rfl
  case next =>
    -- only a line that has been drawn is followed by one with an address already
    intro y hline hy hzero hlow hhigh
    obtain ⟨above, rfl⟩ : ∃ above, y = above + 1 := ⟨y - 1, by omega⟩
    change q.controls.v.withColumnOf q.controls.t = _
    rw [hsetup.t]
    exact (h.lineEnd above (by omega) (by omega) hdot).1
  case selected =>
    intro y hline hy hlow
    rw [show q.beam.line = y - 1 by omega]
    exact hsetup.selection fetch y
  all_goals
    intros
    omega

/-- What the chip fetches on a dot keeps it in step. -/
theorem fetchDot :
    p.Fetching fetch q.beam.line (q.beam.dot + 1) (q.fetchDot fetch) := by
  by_cases hend : q.beam.dot = 257
  · exact h.lineEnds hsetup hend
  · by_cases hlast : q.beam.dot = 256
    · rw [fetchDot_last hlast]
      exact h.last hsetup hlast
    · cases hfetch : isFetchDot q.beam.dot with
      | true =>
        rw [fetchDot_pipeline hfetch hlast hend]
        exact h.pipeline hsetup hfetch hlast hend
      | false =>
        by_cases hrow : RestoresRow q.beam.line q.beam.dot
        · rw [fetchDot_restoreRow hrow]
          exact h.restoreRow hrow hsetup.t
        · rw [fetchDot_idle hfetch hrow]
          exact h.idle hfetch hrow

/-- A dot keeps the chip in step, whatever line it is on. -/
theorem fetched (hrendering : p.controls.rendering = true) :
    p.Fetching fetch q.beam.line (q.beam.dot + 1) (q.fetched fetch) := by
  obtain ⟨spriteHit, spriteOverflow, hstatus⟩ := q.updateStatus_eq
  unfold Ppu.fetched
  rw [hsetup.rendering, hrendering, Bool.true_and]
  cases hline : q.beam.onRenderLine with
  | true =>
    have hupdated : p.Fetching fetch q.beam.line q.beam.dot q.updateStatus := by
      rw [hstatus]
      exact h.congr rfl rfl rfl rfl
    have hbeam : q.updateStatus.beam = q.beam := by rw [hstatus]
    rw [if_pos rfl, ← hbeam]
    refine fetchDot ⟨?_, ?_, ?_⟩ ?_
    · rw [hstatus]
      exact hsetup.controls
    · rw [hstatus]
      exact hsetup.palette
    · rw [hstatus]
      exact hsetup.oam
    · rw [hbeam]
      exact hupdated
  | false => exact below (Int.not_lt.mp (of_decide_eq_false hline))

end Fetching

end Ppu

end Famicom
