import Famicom.Proofs.Bus.Effects
import Famicom.Proofs.Picture.Scan

/-!
# Only whole, fresh frames are seen

The picture behind is never cleared, and when it comes to the front it takes the place of the frame
before last. So what is seen is fresh only if between two ends of a frame every pixel is drawn. Here
the pixels drawn are kept in a list beside the chip (`Ppu.Drawing`), which starts anew with each
frame and each reset, and at the end of a frame every place of the picture has exactly one pixel in
it, the one that is shown (`Ppu.Drawing.front_act`). Nothing is asked of the program: it may read
and write the registers between any two dots, switch rendering on and off, and reset the chip.

## The invariant

The list has one pixel for each place that the beam has passed and none for the others
(`Ppu.Covers`). Whether the picture is rendered plays no part, since a dot draws either way, and the
dot that is left out of an odd frame lies before the first line of the picture.
-/

namespace Famicom

/-- A pixel drawn at a place of the picture. -/
structure Pixel where
  x : Nat
  y : Nat
  colour : Colour
  x_lt : x < 256
  y_lt : y < 240

namespace Pixel

/-- The pixel is at this place. -/
def isAt (x y : Nat) (pixel : Pixel) : Bool := pixel.x = x ∧ pixel.y = y

/-- The pixels at a place, in the order they were drawn. -/
def listAt (x y : Nat) (pixels : List Pixel) : List Pixel := pixels.filter (isAt x y)

theorem listAt_singleton (x y : Nat) (pixel : Pixel) :
    listAt x y [pixel] = if pixel.isAt x y then [pixel] else [] := by
  rw [listAt, List.filter_cons, List.filter_nil]

theorem listAt_append (x y : Nat) (pixels more : List Pixel) :
    listAt x y (pixels ++ more) = listAt x y pixels ++ listAt x y more :=
  List.filter_append ..

end Pixel

/-- Draws a pixel into the picture behind. -/
def FrameBuffer.put (f : FrameBuffer) (pixel : Pixel) : FrameBuffer :=
  f.draw pixel.x pixel.y pixel.colour pixel.x_lt pixel.y_lt

theorem FrameBuffer.back_put (f : FrameBuffer) (pixel : Pixel) {x y : Nat} (hx : x < 256) :
    (f.put pixel).back[place x y]? =
      if pixel.isAt x y then some pixel.colour else f.back[place x y]? := by
  rw [put, back_draw _ _ _ _ hx]
  simp only [Pixel.isAt, decide_eq_true_iff]

namespace Ppu

/-! ## What happens to the chip -/

/-- What can happen to the chip. The cartridge that a dot or a read finds comes with it and may be a
different one each time. -/
inductive Action where
  | dot (fetch : UInt16 → UInt8)
  | read (fetch : UInt16 → UInt8) (index : Fin 8)
  | write (index : Fin 8) (value : UInt8)
  | reset

variable (p : Ppu)

/-- The chip after an action. -/
def act : Action → Ppu
  | .dot fetch => (p.tick fetch).ppu
  | .read fetch index => (p.busRead fetch index).2
  | .write index value => (p.busWrite index value).1
  | .reset => p.reset

/-- The action is a dot that ends a frame. -/
def endsFrame : Action → Bool
  | .dot fetch => (p.tick fetch).frameDone
  | _ => false

/-- The pixel under the beam, if the beam is on the picture. -/
def underBeam? : Option Pixel :=
  if h : (1 ≤ p.beam.dot ∧ p.beam.dot - 1 < 256) ∧ 0 ≤ p.beam.line ∧ p.beam.line.toNat < 240 then
    some ⟨p.beam.dot - 1, p.beam.line.toNat, p.colourAt (p.beam.dot - 1), h.1.2, h.2.2⟩
  else none

/-- The pixel that an action draws. -/
def drawn? : Action → Option Pixel
  | .dot fetch => (p.fetched fetch).underBeam?
  | _ => none

/-- The pictures with what an action draws. -/
def painted (a : Action) : FrameBuffer := (p.drawn? a).elim p.frame p.frame.put

theorem frame_drawDot : p.drawDot.frame = p.underBeam?.elim p.frame p.frame.put := by
  rw [drawDot, underBeam?]
  split
  · next hinside =>
    rw [dif_pos hinside.symm]
    exact p.frame_drawPixel hinside.2.2 hinside.1.2
  · next houtside =>
    rw [dif_neg fun hinside ↦ houtside hinside.symm]
    rfl

/-- The pixel under the beam is at the place of the beam. -/
theorem any_underBeam? {x y : Nat} (hx : x < 256) (hy : y < 240) :
    p.underBeam?.any (Pixel.isAt x y) = true ↔ (y : Int) = p.beam.line ∧ x + 1 = p.beam.dot := by
  rw [underBeam?]
  split
  · next hinside =>
    simp only [Option.any_some, Pixel.isAt, decide_eq_true_iff]
    omega
  · next houtside =>
    simp only [Option.any_none, Bool.false_eq_true, false_iff]
    omega

theorem painted_dot (fetch : UInt16 → UInt8) :
    p.painted (.dot fetch) = (p.fetched fetch).drawDot.frame := by
  obtain ⟨_, _, _, _, _, _, hfetched⟩ := p.fetched_eq fetch
  have hframe : (p.fetched fetch).frame = p.frame := by rw [hfetched]
  rw [frame_drawDot, hframe, painted, drawn?]

theorem endsFrame_dot (fetch : UInt16 → UInt8) :
    p.endsFrame (.dot fetch) = (p.beam.advance p.controls.rendering).1 := (p.tick_eq fetch).2.2

theorem beam_act_dot (fetch : UInt16 → UInt8) :
    (p.act (.dot fetch)).beam = (p.beam.advance p.controls.rendering).2 := by
  obtain ⟨nmiLevel, spriteHit, htick⟩ := p.tick_ppu fetch
  rw [act, htick]

/-- An action draws its pixel, and at the end of a frame shows the picture drawn. Nothing else
touches the pictures. -/
theorem frame_act (a : Action) :
    (p.act a).frame = if p.endsFrame a then (p.painted a).swap else p.painted a := by
  cases a with
  | dot fetch =>
    obtain ⟨nmiLevel, spriteHit, htick⟩ := p.tick_ppu fetch
    rw [act, htick, endsFrame_dot, painted_dot]
  | read fetch index =>
    obtain ⟨controls, vblank, hread, -⟩ := p.busRead_cases fetch index
    rw [act, hread]
    rfl
  | write index value =>
    obtain ⟨controls, palette, oam, hwrite, -⟩ := p.busWrite_cases index value
    rw [act, hwrite]
    rfl
  | reset => rfl

theorem front_painted (a : Action) : (p.painted a).front = p.frame.front := by
  rw [painted]
  cases p.drawn? a <;> rfl

/-- The chip has come from switching it on by some actions, and these are the pixels it has drawn
since then, since the last end of a frame or since the last reset, whichever is the latest. -/
inductive Drawing : Ppu → List Pixel → Prop where
  | powerOn (tv : Television) : Drawing (powerOn tv) []
  | dot {p : Ppu} {drawn : List Pixel} (h : Drawing p drawn) (fetch : UInt16 → UInt8) :
    Drawing (p.act (.dot fetch))
      (if p.endsFrame (.dot fetch) then [] else drawn ++ (p.drawn? (.dot fetch)).toList)
  | read {p : Ppu} {drawn : List Pixel} (h : Drawing p drawn) (fetch : UInt16 → UInt8)
    (index : Fin 8) : Drawing (p.act (.read fetch index)) drawn
  | write {p : Ppu} {drawn : List Pixel} (h : Drawing p drawn) (index : Fin 8) (value : UInt8) :
    Drawing (p.act (.write index value)) drawn
  | reset {p : Ppu} {drawn : List Pixel} (h : Drawing p drawn) : Drawing (p.act .reset) []

/-! ## The places that the beam has passed -/

/-- The places that the beam has passed have one pixel each in the list, which is in the picture
behind, and the others have none. -/
structure Covers (line : Int) (dot : Nat) (f : FrameBuffer) (drawn : List Pixel) : Prop where
  passed : ∀ x y, x < 256 → y < 240 → Passed line dot x y →
    ∃ pixel, Pixel.listAt x y drawn = [pixel] ∧ f.back[FrameBuffer.place x y]? = some pixel.colour
  ahead : ∀ x y, x < 256 → y < 240 → ¬Passed line dot x y → Pixel.listAt x y drawn = []

namespace Covers

variable {p} {f : FrameBuffer} {line : Int} {dot : Nat} {drawn : List Pixel}

theorem start (f : FrameBuffer) : Covers (-1) 0 f [] where
  passed := fun x y _ _ hpassed ↦ absurd hpassed (not_passed_start x y)
  ahead := fun _ _ _ _ _ ↦ rfl

theorem congr {line' : Int} {dot' : Nat} (h : Covers line dot f drawn)
    (hsame : ∀ x y, x < 256 → y < 240 → (Passed line' dot' x y ↔ Passed line dot x y)) :
    Covers line' dot' f drawn where
  passed := fun x y hx hy hpassed ↦ h.passed x y hx hy ((hsame x y hx hy).mp hpassed)
  ahead := fun x y hx hy hahead ↦ h.ahead x y hx hy fun hp ↦ hahead ((hsame x y hx hy).mpr hp)

/-- Right of the picture nothing is drawn, so the next line may begin at once. -/
theorem nextLine (h : Covers line dot f drawn) (hdot : 257 < dot) : Covers (line + 1) 0 f drawn :=
  h.congr fun _ _ hx _ ↦ passed_nextLine hdot hx

/-- A dot draws the place of the beam. -/
theorem drawDot (h : Covers p.beam.line p.beam.dot p.frame drawn) :
    Covers p.beam.line (p.beam.dot + 1) p.drawDot.frame (drawn ++ p.underBeam?.toList) := by
  rw [frame_drawDot]
  have hplace {x y : Nat} (hx : x < 256) (hy : y < 240) := p.any_underBeam? hx hy
  cases hbeam : p.underBeam? with
  | none =>
    rw [Option.elim_none, Option.toList_none, List.append_nil]
    refine h.congr fun x y hx hy ↦ passed_succ.trans (or_iff_left ?_)
    rw [← hplace hx hy, hbeam]
    exact Bool.false_ne_true
  | some pixel =>
    simp only [hbeam, Option.any_some] at hplace
    rw [Option.elim_some, Option.toList_some]
    constructor
    · intro x y hx hy hpassed
      rw [FrameBuffer.back_put _ _ hx, Pixel.listAt_append, Pixel.listAt_singleton]
      by_cases hhere : pixel.isAt x y = true
      · obtain ⟨hline, hdot⟩ := (hplace hx hy).mp hhere
        rw [if_pos hhere, if_pos hhere, h.ahead x y hx hy (not_passed_here hline hdot)]
        exact ⟨pixel, rfl, rfl⟩
      · have hbefore := (passed_succ.mp hpassed).resolve_right (hhere ∘ (hplace hx hy).mpr)
        rw [if_neg hhere, if_neg hhere, List.append_nil]
        exact h.passed x y hx hy hbefore
    · intro x y hx hy hahead
      have hboth := not_or.mp (hahead ∘ passed_succ.mpr)
      rw [Pixel.listAt_append, Pixel.listAt_singleton, h.ahead x y hx hy hboth.1,
        if_neg (hboth.2 ∘ (hplace hx hy).mp), List.append_nil]

end Covers

/-! ## Frames -/

/-- What every action keeps. -/
structure IsFresh (p : Ppu) (drawn : List Pixel) : Prop where
  onFrame : p.beam.IsOnFrame
  covers : Covers p.beam.line p.beam.dot p.frame drawn

namespace IsFresh

variable {p} {drawn : List Pixel}

theorem painted (h : p.IsFresh drawn) (fetch : UInt16 → UInt8) :
    Covers p.beam.line (p.beam.dot + 1) (p.painted (.dot fetch))
      (drawn ++ (p.drawn? (.dot fetch)).toList) := by
  obtain ⟨_, _, _, _, _, _, hfetched⟩ := p.fetched_eq fetch
  have hbeam : (p.fetched fetch).beam = p.beam := by rw [hfetched]
  have hframe : (p.fetched fetch).frame = p.frame := by rw [hfetched]
  have hcovers := h.covers
  rw [← hbeam, ← hframe] at hcovers
  rw [painted_dot, ← hbeam]
  exact hcovers.drawDot

/-- A dot keeps the invariant. After the end of a frame there is nothing in the list. -/
theorem dot (h : p.IsFresh drawn) (fetch : UInt16 → UInt8) :
    (p.act (.dot fetch)).IsFresh
      (if p.endsFrame (.dot fetch) then [] else drawn ++ (p.drawn? (.dot fetch)).toList) := by
  have hcovers := h.painted fetch
  refine ⟨by rw [beam_act_dot]; exact h.onFrame.advance _, ?_⟩
  rw [frame_act, beam_act_dot, endsFrame_dot]
  rcases p.beam.advance_cases p.controls.rendering with ⟨hline, hlast, -, hmove⟩ | ⟨-, hmove⟩ |
    ⟨hend, -, hmove⟩ | ⟨-, -, hmove⟩ <;> rw [hmove]
  · -- the dot that is left out lies on the line before the picture
    have hnext := hcovers.nextLine (by omega)
    rw [hline] at hnext
    exact hnext
  · exact hcovers
  · exact hcovers.nextLine (by omega)
  · exact .start _

/-- At the end of a frame the beam has passed every place. -/
theorem pixel?_act_dot (h : p.IsFresh drawn) {fetch : UInt16 → UInt8}
    (hends : p.endsFrame (.dot fetch) = true) {x y : Nat} (hx : x < 256) (hy : y < 240) :
    ∃ pixel, Pixel.listAt x y (drawn ++ (p.drawn? (.dot fetch)).toList) = [pixel] ∧
      (p.act (.dot fetch)).frame.pixel? x y = some pixel.colour := by
  have hlate : 240 ≤ p.beam.line := by
    have hlines := Beam.television_lines p.beam.television
    rw [endsFrame_dot] at hends
    rcases p.beam.advance_cases p.controls.rendering with ⟨-, -, -, hmove⟩ | ⟨-, hmove⟩ |
      ⟨-, -, hmove⟩ | ⟨-, hline, -⟩
    · exact absurd (hends.symm.trans (congrArg Prod.fst hmove)) Bool.noConfusion
    · exact absurd (hends.symm.trans (congrArg Prod.fst hmove)) Bool.noConfusion
    · exact absurd (hends.symm.trans (congrArg Prod.fst hmove)) Bool.noConfusion
    · rw [Beam.lastLine_eq] at hline
      omega
  obtain ⟨pixel, hone, hback⟩ := (h.painted fetch).passed x y hx hy (Or.inl (by omega))
  rw [frame_act, if_pos hends]
  exact ⟨pixel, hone, hback⟩

end IsFresh

theorem Drawing.isFresh {p : Ppu} {drawn : List Pixel} (h : Drawing p drawn) : p.IsFresh drawn := by
  induction h with
  | powerOn tv => exact ⟨Beam.isOnFrame_reset { television := tv }, .start _⟩
  | dot _ fetch ih => exact ih.dot fetch
  | @read p _ _ fetch index ih =>
    obtain ⟨controls, vblank, hread, -⟩ := p.busRead_cases fetch index
    rw [act, hread]
    exact ⟨ih.onFrame, ih.covers⟩
  | @write p _ _ index value ih =>
    obtain ⟨controls, palette, oam, hwrite, -⟩ := p.busWrite_cases index value
    rw [act, hwrite]
    exact ⟨ih.onFrame, ih.covers⟩
  | @reset p _ _ _ => exact ⟨p.beam.isOnFrame_reset, .start _⟩

/-- An action puts no more than its pixel into the pictures. The picture shown changes only with a
dot that ends a frame, and then every place of it shows the one pixel that has been drawn there
since the last frame ended or the chip was reset. -/
theorem Drawing.front_act {p : Ppu} {drawn : List Pixel} (h : Drawing p drawn) (a : Action) :
    (p.act a).frame = (if p.endsFrame a then (p.painted a).swap else p.painted a) ∧
      (p.endsFrame a = false → (p.act a).frame.front = p.frame.front) ∧
      (p.endsFrame a = true → ∀ x y, x < 256 → y < 240 →
        ∃ pixel, Pixel.listAt x y (drawn ++ (p.drawn? a).toList) = [pixel] ∧
          (p.act a).frame.pixel? x y = some pixel.colour) := by
  refine ⟨p.frame_act a, ?_, ?_⟩
  · intro hgoes
    rw [frame_act, hgoes, if_neg Bool.false_ne_true, front_painted]
  · intro hends x y hx hy
    cases a with
    | dot fetch => exact h.isFresh.pixel?_act_dot hends hx hy
    | read | write | reset => exact absurd hends Bool.false_ne_true

/-- Whatever has happened, dots alone come to the end of a frame. -/
theorem Drawing.exists_endsFrame {p : Ppu} {drawn : List Pixel} (h : Drawing p drawn)
    (fetch : UInt16 → UInt8) :
    ∃ q more, Drawing q more ∧ q.endsFrame (.dot fetch) = true := by
  obtain ⟨n, hn⟩ : ∃ n, p.beam.dotsLeft = n := ⟨_, rfl⟩
  induction n using Nat.strongRecOn generalizing p drawn with
  | ind n ih =>
    rcases h.isFresh.onFrame.advance_end p.controls.rendering with ⟨hends, -⟩ | ⟨-, -, hless⟩
    · exact ⟨p, drawn, h, (p.endsFrame_dot fetch).trans hends⟩
    · refine ih _ ?_ (h.dot fetch) rfl
      rw [beam_act_dot, ← hn]
      exact hless

/-- The first frame after switching on, without a cartridge. -/
theorem front_act_powerOn :
    ∃ p drawn, Drawing p drawn ∧ p.endsFrame (.dot openBus) = true ∧
      ∀ x y, x < 256 → y < 240 →
        ∃ pixel, Pixel.listAt x y (drawn ++ (p.drawn? (.dot openBus)).toList) = [pixel] ∧
          (p.act (.dot openBus)).frame.pixel? x y = some pixel.colour := by
  obtain ⟨p, drawn, h, hends⟩ := (Drawing.powerOn .ntsc).exists_endsFrame openBus
  exact ⟨p, drawn, h, hends, (Drawing.front_act h (.dot openBus)).2.2 hends⟩

end Ppu

end Famicom
