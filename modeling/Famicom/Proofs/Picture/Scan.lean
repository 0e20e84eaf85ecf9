import Famicom.Machine.Run
import Famicom.Proofs.Picture.Fetching

/-!
# A whole frame

From the start of a frame to its end the chip draws every pixel as `Ppu.directPixel` has it,
whatever it held before in its registers, its latch and the picture behind. The invariant of the way
is `Ppu.Scans`: a program has set nothing else since, what is fetched fits the place of the beam,
and the places that the beam has passed are drawn. A dot keeps it or ends the frame
(`Ppu.Scans.tick_cases`), and `Beam.dotsLeft` bounds how many dots there are. An odd frame may leave
out a dot, but nothing is fetched or drawn on that one.
-/

namespace Famicom

/-! ## Places of a picture -/

namespace FrameBuffer

theorem place_inj {x x' y y' : Nat} (hx : x < 256) (hx' : x' < 256) :
    place x y = place x' y' ↔ x = x' ∧ y = y' := by
  unfold place Television.screenWidth
  omega

/-- Drawing changes one pixel of the picture behind. -/
theorem back_draw (f : FrameBuffer) (colour : Colour) {x x' y y' : Nat} (hx : x < 256)
    (hy : y < 240) (hx' : x' < 256) :
    (f.draw x y colour hx hy).back[place x' y']? =
      if x = x' ∧ y = y' then some colour else f.back[place x' y']? := by
  unfold draw
  dsimp only
  rw [Vector.getElem?_set]
  simp only [place_inj hx hx']

end FrameBuffer

/-! ## The way to the end of a frame -/

namespace Beam

/-- The dots from here to the end of the frame, if none is left out. -/
def dotsLeft (b : Beam) : Nat := 341 * (b.lastLine - b.line).toNat + (341 - b.dot)

theorem dotsLeft_start {b : Beam} (hline : b.line = -1) (hdot : b.dot = 0) :
    b.dotsLeft = b.television.dotsPerFrame := by
  have hlines := television_lines b.television
  unfold dotsLeft Television.dotsPerFrame Television.dotsPerLine
  rw [lastLine_eq, hline, hdot]
  omega

theorem IsOnFrame.dotsLeft_pos {b : Beam} (h : b.IsOnFrame) : 0 < b.dotsLeft := by
  have hdot := h.dot_lt
  rw [Television.dotsPerLine] at hdot
  unfold dotsLeft
  omega

/-- A dot that does not end the frame leaves fewer. -/
theorem IsOnFrame.dotsLeft_advance {b : Beam} (h : b.IsOnFrame) {rendering : Bool} {next : Beam}
    (hmove : b.advance rendering = (false, next)) : next.dotsLeft < b.dotsLeft := by
  have hdot := h.dot_lt
  rw [Television.dotsPerLine] at hdot
  have hlines := television_lines b.television
  unfold dotsLeft
  rcases b.advance_cases rendering with ⟨hline, hlast, -, hcase⟩ | ⟨-, hcase⟩ |
    ⟨-, hline, hcase⟩ | ⟨-, -, hcase⟩
  · obtain rfl := (Prod.ext_iff.mp (hmove.symm.trans hcase)).2
    rw [lastLine_eq, lastLine_eq, hline, hlast]
    dsimp only
    omega
  · obtain rfl := (Prod.ext_iff.mp (hmove.symm.trans hcase)).2
    rw [lastLine_eq, lastLine_eq]
    dsimp only
    omega
  · obtain rfl := (Prod.ext_iff.mp (hmove.symm.trans hcase)).2
    rw [lastLine_eq] at hline
    rw [lastLine_eq, lastLine_eq]
    dsimp only
    omega
  · exact absurd (Prod.ext_iff.mp (hmove.symm.trans hcase)).1 Bool.false_ne_true

/-- A dot ends the frame, or it brings its end nearer. -/
theorem IsOnFrame.advance_end {b : Beam} (h : b.IsOnFrame) (rendering : Bool) :
    (b.advance rendering).1 = true ∧ (b.advance rendering).2.line = -1 ∧
        (b.advance rendering).2.dot = 0 ∧ (b.advance rendering).2.frames = b.frames + 1 ∨
      (b.advance rendering).1 = false ∧ (b.advance rendering).2.frames = b.frames ∧
        (b.advance rendering).2.dotsLeft < b.dotsLeft := by
  rcases b.advance_cases rendering with ⟨-, -, -, hmove⟩ | ⟨-, hmove⟩ | ⟨-, -, hmove⟩ |
    ⟨-, -, hmove⟩ <;> rw [hmove]
  · exact Or.inr ⟨rfl, rfl, h.dotsLeft_advance hmove⟩
  · exact Or.inr ⟨rfl, rfl, h.dotsLeft_advance hmove⟩
  · exact Or.inr ⟨rfl, rfl, h.dotsLeft_advance hmove⟩
  · exact Or.inl ⟨rfl, rfl, rfl, rfl⟩

end Beam

namespace Ppu

variable {p q : Ppu} {fetch : UInt16 → UInt8}

/-! ## One pixel -/

theorem not_rendering (h : q.controls.rendering = false) :
    q.controls.showsBackground = false ∧ q.controls.showsSprites = false :=
  Bool.or_eq_false_iff.mp h

/-- The colour that the chip shows at a column. -/
def colourAt (p : Ppu) (x : Nat) : Colour :=
  p.palette.colour (mergedSlot (p.backgroundAt x) (p.spriteAt x)) p.controls.grey

theorem frame_drawPixel (q : Ppu) {x y : Nat} (hx : x < 256) (hy : y < 240) :
    (q.drawPixel x y hx hy).frame = q.frame.draw x y (q.colourAt x) hx hy := by
  unfold drawPixel
  cases hrendering : q.controls.rendering with
  | true => rfl
  | false =>
    obtain ⟨hbackground, hsprites⟩ := not_rendering hrendering
    unfold colourAt backgroundAt spriteAt
    rw [hbackground, hsprites]
    rfl

/-- The background that the registers give is the one that belongs there. -/
theorem backgroundAt_eq {x y : Nat} (hsetup : p.SharesSetup q)
    (h : p.controls.showsBackground = true → q.shifters.Shows (p.rowAt fetch y) (x + 16)) :
    q.backgroundAt x = p.directBackground fetch x y := by
  unfold backgroundAt directBackground
  rw [hsetup.controls]
  change (if bit p.controls.mask 3 && (8 ≤ x || bit p.controls.mask 1) then
    (q.shifters.colour p.controls.fineX, q.shifters.palette p.controls.fineX) else (0, 0)) = _
  cases hshows : bit p.controls.mask 3 with
  | false => rfl
  | true =>
    obtain ⟨hcolour, hpalette⟩ :=
      (h hshows).colour_eq p.controls.fineX (palette_tileRow_lt _ _ _)
    rw [hcolour, hpalette]

theorem spriteAt_eq {x y : Nat} (hsetup : p.SharesSetup q)
    (h : p.controls.showsSprites = true → q.sprites.selected = p.selection fetch y) :
    q.spriteAt x = p.directSprite fetch x y := by
  unfold spriteAt directSprite
  rw [hsetup.controls]
  change (if bit p.controls.mask 4 && (8 ≤ x || bit p.controls.mask 2) then
    q.sprites.pixel? x else none) = _
  cases hshows : bit p.controls.mask 4 with
  | false => rfl
  | true =>
    rw [SpriteUnit.pixel?, h hshows, findSome?_selection]
    rfl

/-- In step with the beam, the chip shows what belongs at its place. -/
theorem colourAt_eq {x y : Nat} (hsetup : p.SharesSetup q)
    (h : p.controls.rendering = true → p.Fetching fetch y (x + 2) q) (hx : x < 256) (hy : y < 240) :
    q.colourAt x = p.directPixel fetch x y := by
  have hbackground : q.backgroundAt x = p.directBackground fetch x y :=
    backgroundAt_eq hsetup fun hshows ↦
      (h (Bool.or_eq_true_iff.mpr (Or.inl hshows))).shows hx hy hshows
  have hsprite : q.spriteAt x = p.directSprite fetch x y :=
    spriteAt_eq hsetup fun hshows ↦
      (h (Bool.or_eq_true_iff.mpr (Or.inr hshows))).shown y rfl hy (by omega)
  rw [← colour_directCell, ← mergedSlot_direct, colourAt, hbackground, hsprite, hsetup.palette,
    hsetup.controls]
  rfl

/-! ## The picture so far -/

/-- The beam has passed a place. -/
def Passed (line : Int) (dot x y : Nat) : Prop := (y : Int) < line ∨ (y : Int) = line ∧ x + 1 < dot

theorem not_passed_start (x y : Nat) : ¬Passed (-1) 0 x y := by
  rintro (habove | ⟨hline, -⟩) <;> omega

/-- A dot passes the place of the beam. -/
theorem passed_succ {line : Int} {dot x y : Nat} :
    Passed line (dot + 1) x y ↔ Passed line dot x y ∨ (y : Int) = line ∧ x + 1 = dot := by
  simp only [Passed]
  omega

/-- The beam has not passed the place where it is. -/
theorem not_passed_here {line : Int} {dot x y : Nat} (hline : (y : Int) = line)
    (hdot : x + 1 = dot) : ¬Passed line dot x y := by
  rintro (habove | ⟨-, hleft⟩) <;> omega

/-- Right of the picture the whole line has been passed. -/
theorem passed_nextLine {line : Int} {dot x y : Nat} (hdot : 257 < dot) (hx : x < 256) :
    Passed (line + 1) 0 x y ↔ Passed line dot x y := by
  simp only [Passed]
  omega

/-- The places that the beam has passed are drawn. -/
def Drawn (p : Ppu) (fetch : UInt16 → UInt8) (line : Int) (dot : Nat) (f : FrameBuffer) : Prop :=
  ∀ x y, x < 256 → y < 240 → Passed line dot x y →
    f.back[FrameBuffer.place x y]? = some (p.directPixel fetch x y)

namespace Drawn

variable {f : FrameBuffer} {line : Int} {dot : Nat}

theorem start (p : Ppu) (fetch : UInt16 → UInt8) (f : FrameBuffer) : p.Drawn fetch (-1) 0 f := by
  intro x y hx hy hpassed
  exact absurd hpassed (not_passed_start x y)

/-- Right of the picture nothing is drawn, so the next line may begin at once. -/
theorem nextLine (h : p.Drawn fetch line dot f) (hdot : 257 < dot) :
    p.Drawn fetch (line + 1) 0 f := by
  intro x y hx hy hpassed
  exact h x y hx hy ((passed_nextLine hdot hx).mp hpassed)

theorem frameEnd (h : p.Drawn fetch line dot f) (hline : 240 ≤ line) {x y : Nat} (hx : x < 256)
    (hy : y < 240) : f.swap.pixel? x y = some (p.directPixel fetch x y) :=
  h x y hx hy (Or.inl (by omega))

/-- A dot draws its own place. -/
theorem drawDot (hsetup : p.SharesSetup q)
    (hfetching : p.controls.rendering = true → p.Fetching fetch q.beam.line (q.beam.dot + 1) q)
    (h : p.Drawn fetch q.beam.line q.beam.dot q.frame) :
    p.Drawn fetch q.beam.line (q.beam.dot + 1) q.drawDot.frame := by
  intro x y hx hy hpassed
  unfold Ppu.drawDot
  dsimp only
  split
  · next hinside =>
    rw [frame_drawPixel, FrameBuffer.back_draw _ _ _ _ hx]
    -- the place of the beam is drawn now, any other has been passed before
    split
    · next hhere =>
      have hline : q.beam.line = y := by omega
      have hdot : q.beam.dot + 1 = x + 2 := by omega
      rw [hhere.1]
      rw [hline, hdot] at hfetching
      exact congrArg some (colourAt_eq hsetup hfetching hx hy)
    · rcases passed_succ.mp hpassed with hbefore | ⟨hline, hdot⟩
      · exact h x y hx hy hbefore
      · omega
  · rcases passed_succ.mp hpassed with hbefore | ⟨hline, hdot⟩
    · exact h x y hx hy hbefore
    · omega

end Drawn

/-! ## A dot of the frame -/

theorem tick_ppu (q : Ppu) (fetch : UInt16 → UInt8) :
    ∃ nmiLevel spriteHit,
      (q.tick fetch).ppu =
        { q.fetched fetch with
          beam := (q.beam.advance q.controls.rendering).2
          frame :=
            if (q.beam.advance q.controls.rendering).1 then (q.fetched fetch).drawDot.frame.swap
            else (q.fetched fetch).drawDot.frame
          nmiLevel, spriteHit } := by
  obtain ⟨_, _, _, _, _, _, hfetched⟩ := q.fetched_eq fetch
  obtain ⟨spriteHit, frame, hdraw⟩ := (q.fetched fetch).drawDot_eq
  have hbeam : (q.fetched fetch).beam = q.beam := by rw [hfetched]
  rw [tick_fetched, hdraw]
  unfold moveBeam
  dsimp only [sampleNmi]
  rw [hbeam]
  cases (q.beam.advance q.controls.rendering).1 with
  | true => exact ⟨_, _, rfl⟩
  | false => exact ⟨_, _, rfl⟩

/-- A chip that has come from `p` at the start of a frame to the place of its beam. -/
structure Scans (p : Ppu) (fetch : UInt16 → UInt8) (q : Ppu) : Prop where
  setup : p.SharesSetup q
  onFrame : q.beam.IsOnFrame
  frames : q.beam.frames = p.beam.frames
  fetching : p.controls.rendering = true → p.Fetching fetch q.beam.line q.beam.dot q
  drawn : p.Drawn fetch q.beam.line q.beam.dot q.frame

namespace Scans

theorem start (hline : p.beam.line = -1) (hdot : p.beam.dot = 0) : p.Scans fetch p := by
  have hlines := Beam.television_lines p.beam.television
  refine ⟨.refl p, ⟨?_, ?_, ?_⟩, rfl, fun _ ↦ ?_, ?_⟩
  · exact Int.le_of_eq hline.symm
  · rw [hline, Beam.lastLine_eq]
    omega
  · rw [hdot]
    exact Nat.zero_lt_succ _
  · rw [hline, hdot]
    exact Fetching.start p p fetch
  · rw [hline, hdot]
    exact Drawn.start p fetch p.frame

/-- After the fetches of a dot the chip is in step for the next one. -/
theorem fetched (h : p.Scans fetch q) (hrendering : p.controls.rendering = true) :
    p.Fetching fetch q.beam.line (q.beam.dot + 1) (q.fetched fetch) :=
  (h.fetching hrendering).fetched h.setup hrendering

theorem drawDot (h : p.Scans fetch q) :
    p.Drawn fetch q.beam.line (q.beam.dot + 1) (q.fetched fetch).drawDot.frame := by
  obtain ⟨_, _, _, _, _, _, hfetched⟩ := q.fetched_eq fetch
  have hbeam : (q.fetched fetch).beam = q.beam := by rw [hfetched]
  have hframe : (q.fetched fetch).frame = q.frame := by rw [hfetched]
  rw [← hbeam]
  refine Drawn.drawDot (h.setup.fetched fetch) ?_ ?_
  · rw [hbeam]
    exact h.fetched
  · rw [hbeam, hframe]
    exact h.drawn

/-- Within the frame a dot keeps the invariant if its fetches and its pixel fit the new place. -/
theorem move (h : p.Scans fetch q) {beam : Beam}
    (hmove : q.beam.advance q.controls.rendering = (false, beam))
    (hframes : beam.frames = q.beam.frames)
    (hfetching : p.controls.rendering = true →
      p.Fetching fetch beam.line beam.dot (q.fetched fetch))
    (hdrawn : p.Drawn fetch beam.line beam.dot (q.fetched fetch).drawDot.frame) :
    p.Scans fetch (q.tick fetch).ppu ∧
      (q.tick fetch).ppu.beam.dotsLeft < q.beam.dotsLeft := by
  obtain ⟨nmiLevel, spriteHit, htick⟩ := q.tick_ppu fetch
  obtain ⟨hcontrols, hpalette, hoam⟩ := h.setup.fetched fetch
  have honFrame := h.onFrame.advance q.controls.rendering
  rw [hmove] at htick honFrame
  rw [htick]
  exact ⟨⟨⟨hcontrols, hpalette, hoam⟩, honFrame, hframes.trans h.frames,
    fun hrendering ↦ (hfetching hrendering).congr rfl rfl rfl rfl, hdrawn⟩,
    h.onFrame.dotsLeft_advance hmove⟩

/-- A dot brings the chip closer to the end of the frame, or ends it with every pixel drawn. -/
theorem tick_cases (h : p.Scans fetch q) :
    (q.tick fetch).frameDone = false ∧ p.Scans fetch (q.tick fetch).ppu ∧
        (q.tick fetch).ppu.beam.dotsLeft < q.beam.dotsLeft ∨
      (q.tick fetch).frameDone = true ∧
        (q.tick fetch).ppu.beam.frames = p.beam.frames + 1 ∧
        ∀ x y, x < 256 → y < 240 →
          (q.tick fetch).ppu.frame.pixel? x y = some (p.directPixel fetch x y) := by
  have hdone : (q.tick fetch).frameDone = (q.beam.advance q.controls.rendering).1 :=
    (q.tick_eq fetch).2.2
  rw [hdone]
  rcases q.beam.advance_cases q.controls.rendering with ⟨hline, hlast, -, hmove⟩ |
    ⟨-, hmove⟩ | ⟨hend, -, hmove⟩ | ⟨-, hline, hmove⟩
  · -- the dot left out comes after all the fetches of its line
    have hfetching (hrendering : p.controls.rendering = true) :=
      (h.fetched hrendering).nextLine (by omega)
    have hdrawn := h.drawDot.nextLine (by omega)
    rw [hline] at hfetching hdrawn
    rw [hmove]
    exact Or.inl ⟨rfl, h.move hmove rfl hfetching hdrawn⟩
  · rw [hmove]
    exact Or.inl ⟨rfl, h.move hmove rfl h.fetched h.drawDot⟩
  · have hfetching (hrendering : p.controls.rendering = true) :=
      (h.fetched hrendering).nextLine (by omega)
    rw [hmove]
    exact Or.inl ⟨rfl, h.move hmove rfl hfetching (h.drawDot.nextLine (by omega))⟩
  · obtain ⟨nmiLevel, spriteHit, htick⟩ := q.tick_ppu fetch
    have hlines := Beam.television_lines q.beam.television
    rw [Beam.lastLine_eq] at hline
    rw [htick, hmove]
    exact Or.inr ⟨rfl, congrArg (· + 1) h.frames,
      fun x y hx hy ↦ h.drawDot.frameEnd (by omega) hx hy⟩

end Scans

end Ppu

/-! ## A frame -/

namespace Bus

theorem clockPicture_eq (b : Bus) :
    b.clockPicture.1 = (b.ppu.tick b.slot.readPpu).frameDone ∧
      b.clockPicture.2.ppu = (b.ppu.tick b.slot.readPpu).ppu ∧
      b.clockPicture.2.slot = b.slot :=
  ⟨rfl, rfl, rfl⟩

/-- From anywhere on the way the frame ends within the dots that are left, and it is drawn. -/
theorem clockPictureFrameFrom_scans {p : Ppu} {fetch : UInt16 → UInt8} {b : Bus} {limit : Nat}
    (hslot : b.slot.readPpu = fetch) (h : p.Scans fetch b.ppu)
    (hlimit : b.ppu.beam.dotsLeft ≤ limit) (taken : Nat) :
    (clockPictureFrameFrom taken limit b).2.ppu.beam.frames = p.beam.frames + 1 ∧
      ∀ x y, x < 256 → y < 240 →
        (clockPictureFrameFrom taken limit b).2.ppu.frame.pixel? x y =
          some (p.directPixel fetch x y) := by
  induction limit generalizing b taken with
  | zero =>
    have hleft := h.onFrame.dotsLeft_pos
    omega
  | succ limit ih =>
    obtain ⟨hdone, hppu, hsame⟩ := b.clockPicture_eq
    rw [hslot] at hdone hppu
    unfold clockPictureFrameFrom
    dsimp only
    rw [hdone]
    rcases h.tick_cases with ⟨hgoes, hscans, hless⟩ | ⟨hends, hframes, hpixels⟩
    · rw [hgoes, if_neg Bool.false_ne_true]
      rw [← hppu] at hscans hless
      exact ih (by rw [hsame, hslot]) hscans (by omega) (taken + 1)
    · rw [hends, if_pos rfl, hppu]
      exact ⟨hframes, hpixels⟩

/-- Running the picture chip from the start of a frame until one ends shows the picture that the
setup of the chip and the cartridge describe. Nothing else the chip holds plays a part. -/
theorem pixel?_clockPictureFrame (b : Bus) (hline : b.ppu.beam.line = -1)
    (hdot : b.ppu.beam.dot = 0) :
    b.clockPictureFrame.2.ppu.beam.frames = b.ppu.beam.frames + 1 ∧
      ∀ x y, x < 256 → y < 240 →
        b.clockPictureFrame.2.ppu.frame.pixel? x y =
          some (b.ppu.directPixel b.slot.readPpu x y) :=
  clockPictureFrameFrom_scans rfl (Ppu.Scans.start hline hdot)
    (Nat.le_of_eq (Beam.dotsLeft_start hline hdot)) 0

/-- Without a cartridge, after a program has set three colours and two sprites and shown both
layers. The bus answers with the upper byte of an address. So every tile of the background is number
`0x20`, with `0x12` for both planes, and its palette is the last one; the tile `0xf0` of the sprites
has `0x1f` for both planes. The first sprite is in front of the background, in the columns from 0
on, and the second one behind it, in the columns from 8 on. -/
def withoutCartridge : Bus :=
  [(0x2006, 0x3f), (0x2006, 0x0f), (0x2007, 0x2a), (0x2006, 0x3f), (0x2006, 0x13), (0x2007, 0x16),
    (0x2006, 0x3f), (0x2006, 0x17), (0x2007, 0x12), (0x2003, 0),
    (0x2004, 0), (0x2004, 0xf0), (0x2004, 0), (0x2004, 0),
    (0x2004, 0), (0x2004, 0xf0), (0x2004, 0x21), (0x2004, 8),
    (0x2006, 0), (0x2006, 0), (0x2000, 0x18), (0x2001, 0x1e)].foldl
      (fun b (addr, value) ↦ b.write addr value) (powerOn .ntsc .empty)

/-- Columns 3 and 11 have an opaque background under a sprite, columns 4 and 12 a clear one. Column
1 shows the backdrop. -/
theorem pixel?_withoutCartridge :
    (withoutCartridge.ppu.beam.line = -1 ∧ withoutCartridge.ppu.beam.dot = 0) ∧
      [1, 3, 4, 11, 12].map (withoutCartridge.clockPictureFrame.2.ppu.frame.pixel? · 1) =
        [some 0xff545454, some 0xff982220, some 0xff982220, some 0xff409c30, some 0xff3032ec] := by
  have hframe := (pixel?_clockPictureFrame withoutCartridge rfl rfl).2
  refine ⟨⟨rfl, rfl⟩, ?_⟩
  simp only [List.map_cons, List.map_nil]
  rw [hframe 1 1 (by decide) (by decide), hframe 3 1 (by decide) (by decide),
    hframe 4 1 (by decide) (by decide), hframe 11 1 (by decide) (by decide),
    hframe 12 1 (by decide) (by decide)]
  decide +kernel

end Bus

end Famicom
