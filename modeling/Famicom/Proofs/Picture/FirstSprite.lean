import Famicom.Proofs.Picture.Blanking
import Famicom.Proofs.Picture.SpriteLine

/-!
# The hit of the first sprite

A program times itself by the flag that the first sprite of sprite memory sets where it meets the
background. The other 63 have no part in it. They share the selection of a line with the first, they
are searched for an opaque pixel together with it, and they may push one another out of the eight
that a line can show; but the first sprite is selected before all others, and so it is neither
pushed out nor covered.

## Two runs

That something has no part in a flag is a statement about two runs. `Ppu.Alike` relates two chips
that agree in all but what comes of the other sprites: their bytes, their rows of pattern, the
overflow, the picture, and the byte on the bus, through which a program may have read any of these.
Every dot, every read and every write keeps the relation, and under it the flag is the same
(`Bus.spriteHit_follows_first`).

What keeps the search the same is the order of the selection (`SpriteUnit.IsOrdered`). Were the
first sprite behind another one, that one could cover it in one of the runs only.
-/

namespace Famicom

/-! ## The first among the selected -/

namespace SpriteUnit

/-- The first sprite of sprite memory, if it is selected. -/
def first? (u : SpriteUnit) : Option LineSprite := u.selected.find? (·.sprite.index == 0)

/-- The pixel of the first sprite at a column, if it is selected and opaque there. -/
def firstPixel? (u : SpriteUnit) (x : Nat) : Option SpritePixel := u.first?.bind (·.pixel? x)

/-- Sprites are selected in the order of sprite memory. -/
def IsOrdered (u : SpriteUnit) : Prop :=
  u.selected.Pairwise fun s t ↦ s.sprite.index < t.sprite.index

theorem first_of_pixel? {s : LineSprite} {x : Nat} {pixel : SpritePixel}
    (h : s.pixel? x = some pixel) : pixel.first = (s.sprite.index == 0) := by
  unfold LineSprite.pixel? at h
  dsimp only at h
  generalize (if s.sprite.isFlippedX then x - s.sprite.x.toNat else
    7 - (x - s.sprite.x.toNat)) = place at h
  split at h
  · split at h
    · exact absurd h.symm (Option.some_ne_none pixel)
    · rw [← Option.some.inj h]
  · exact absurd h.symm (Option.some_ne_none pixel)

/-- The first sprite, if it is selected, is searched first. So the pixel found belongs to it exactly
where it has one. -/
theorem any_first_pixel? {u : SpriteUnit} (h : u.IsOrdered) (x : Nat) :
    (u.pixel? x).any (·.first) = (u.firstPixel? x).isSome := by
  unfold IsOrdered at h
  unfold pixel? firstPixel? first?
  generalize u.selected = selected at h
  cases selected with
  | nil => rfl
  | cons s rest =>
    obtain ⟨hbefore, -⟩ := List.pairwise_cons.mp h
    have hlater (t : LineSprite) (ht : t ∈ rest) : (t.sprite.index == 0) = false := by
      have hindex := hbefore t ht
      rw [beq_eq_false_iff_ne]
      omega
    -- what the search finds after the first place is another sprite's
    have hother : (rest.findSome? (·.pixel? x)).any (·.first) = false := by
      cases hfound : rest.findSome? (·.pixel? x) with
      | none => rfl
      | some pixel =>
        obtain ⟨t, ht, hpixel⟩ := List.exists_of_findSome?_eq_some hfound
        rw [Option.any_some, first_of_pixel? hpixel, hlater t ht]
    have hnone : rest.find? (·.sprite.index == 0) = none :=
      List.find?_eq_none.mpr fun t ht ↦ Bool.eq_false_iff.mp (hlater t ht)
    rw [List.findSome?_cons, List.find?_cons]
    cases hfirst : s.sprite.index == 0 with
    | true =>
      dsimp only
      rw [Option.bind_some]
      cases hpixel : s.pixel? x with
      | none => exact hother
      | some pixel => exact (first_of_pixel? hpixel).trans hfirst
    | false =>
      dsimp only
      rw [hnone, Option.bind_none]
      cases hpixel : s.pixel? x with
      | none => exact hother
      | some pixel => exact (first_of_pixel? hpixel).trans hfirst

section Select

variable (u : SpriteUnit) (line : Int) (tall : Bool) (table : Nat) (fetch : UInt16 → UInt8)

theorem isOrdered_select : (u.select line tall table fetch).IsOrdered := by
  rw [IsOrdered, selected_select, List.pairwise_map]
  exact u.pairwise_held line tall

/-- The first entry that is held is the first of sprite memory if that has a row on the line. No
number of other entries pushes it out. -/
theorem find?_held :
    (u.held line tall).find? (·.val == 0) = if u.hasRow line tall 0 then some 0 else none := by
  rw [held, entriesOn, List.finRange_succ, List.filter_cons]
  -- the first entry heads the list or is not in it, so taking eight cannot lose it
  cases u.hasRow line tall 0 with
  | true => rfl
  | false =>
    rw [if_neg Bool.false_ne_true, if_neg Bool.false_ne_true, List.find?_eq_none]
    intro i hi
    obtain ⟨j, -, rfl⟩ := List.mem_map.mp (List.mem_filter.mp (List.mem_of_mem_take hi)).1
    exact Bool.false_ne_true

/-- The first sprite is selected where its own entry has a row. -/
theorem first?_select :
    (u.select line tall table fetch).first? =
      if (u.sprite 0).reaches line (height tall) then
        some ⟨u.sprite 0, fetch ((u.sprite 0).patternAddress line (height tall) table),
          fetch ((u.sprite 0).patternAddress line (height tall) table + 8)⟩
      else none := by
  have hindex : (fun s : LineSprite ↦ s.sprite.index == 0) ∘ (fun i ↦
      ⟨u.sprite i, fetch ((u.sprite i).patternAddress line (height tall) table),
        fetch ((u.sprite i).patternAddress line (height tall) table + 8)⟩) =
        fun i : Fin 64 ↦ i.val == 0 := rfl
  rw [first?, selected_select, List.find?_map, hindex, find?_held, reaches_sprite]
  split
  · rfl
  · rfl

end Select

/-! ## The same first sprite -/

/-- The two units have the same first sprite: the same entry of sprite memory, and the same pixels
of what has been selected from it. -/
structure SharesFirst (u v : SpriteUnit) : Prop where
  entry : ∀ k (h : k < 4), v.oam[k] = u.oam[k]
  pixel : ∀ x, v.firstPixel? x = u.firstPixel? x

/-- A write to the other entries leaves the first sprite. -/
theorem sharesFirst_write (u : SpriteUnit) {addr : UInt8} (haddr : 4 ≤ addr.toNat)
    (value : UInt8) : u.SharesFirst (u.write addr value) where
  entry k hk := by
    change (u.oam.set addr.toNat value (UInt8.toNat_lt addr))[k] = u.oam[k]
    exact Vector.getElem_set_ne _ _ (by omega)
  pixel _ := rfl

namespace SharesFirst

variable {u v : SpriteUnit}

theorem write (h : u.SharesFirst v) (addr value : UInt8) :
    (u.write addr value).SharesFirst (v.write addr value) where
  entry k hk := by
    change (v.oam.set addr.toNat value (UInt8.toNat_lt addr))[k] =
      (u.oam.set addr.toNat value (UInt8.toNat_lt addr))[k]
    rw [Vector.getElem_set, Vector.getElem_set, h.entry k hk]
  pixel := h.pixel

theorem sprite (h : u.SharesFirst v) : v.sprite 0 = u.sprite 0 := by
  have hy := h.entry 0 (by decide)
  have htile := h.entry 1 (by decide)
  have hattributes := h.entry 2 (by decide)
  have hx := h.entry 3 (by decide)
  unfold SpriteUnit.sprite
  simp only [Fin.val_zero, Nat.mul_zero, Nat.zero_add, hy, htile, hattributes, hx]

theorem select (h : u.SharesFirst v) (line : Int) (tall : Bool) (table : Nat)
    (fetch : UInt16 → UInt8) :
    (u.select line tall table fetch).SharesFirst (v.select line tall table fetch) where
  entry := h.entry
  pixel _ := by rw [firstPixel?, firstPixel?, first?_select, first?_select, h.sprite]

end SharesFirst

end SpriteUnit

namespace Ppu

/-! ## The order of the selection -/

section Ordered

variable {p : Ppu} (fetch : UInt16 → UInt8)

theorem isOrdered_fetchDot (h : p.sprites.IsOrdered) : (p.fetchDot fetch).sprites.IsOrdered := by
  have hpipeline :
      (if isFetchDot p.beam.dot then p.shift.fetchTile fetch p.beam.dot else p).sprites =
        p.sprites := by
    split
    · obtain ⟨_, hshift⟩ := p.shift_eq
      obtain ⟨_, _, _, htile⟩ := p.shift.fetchTile_eq fetch p.beam.dot
      rw [htile, hshift]
    · rfl
  unfold fetchDot
  dsimp only
  split
  · exact SpriteUnit.isOrdered_select _ _ _ _ _
  · obtain ⟨_, _, hscroll⟩ := scroll_eq
      (if isFetchDot p.beam.dot then p.shift.fetchTile fetch p.beam.dot else p) p.beam.dot
    rw [hscroll]
    dsimp only
    rw [hpipeline]
    exact h

theorem isOrdered_fetched (h : p.sprites.IsOrdered) : (p.fetched fetch).sprites.IsOrdered := by
  obtain ⟨_, _, hstatus⟩ := p.updateStatus_eq
  have hupdated : p.updateStatus.sprites.IsOrdered := by
    rw [hstatus]
    exact h
  unfold fetched
  split
  · exact isOrdered_fetchDot fetch hupdated
  · exact hupdated

theorem isOrdered_act (h : p.sprites.IsOrdered) (action : Action) :
    (p.act action).sprites.IsOrdered := by
  cases action with
  | dot fetch =>
    obtain ⟨_, _, hdraw⟩ := (p.fetched fetch).drawDot_eq
    obtain ⟨_, hmove⟩ := (p.fetched fetch).drawDot.sampleNmi.2.moveBeam_eq p.controls.rendering
    rw [act, tick_fetched]
    dsimp only
    rw [hmove, hdraw]
    exact isOrdered_fetched fetch h
  | read fetch index =>
    obtain ⟨_, _, hread, -⟩ := p.busRead_cases fetch index
    rw [act, hread]
    exact h
  | write index value =>
    obtain ⟨_, _, _, hwrite, -⟩ := p.busWrite_cases index value
    rw [act, hwrite]
    exact h
  | reset => exact List.Pairwise.nil

theorem isOrdered_run (h : p.sprites.IsOrdered) (actions : List Action) :
    (p.run actions).sprites.IsOrdered := by
  induction actions generalizing p with
  | nil => exact h
  | cons action rest ih => exact ih (isOrdered_act h action)

/-- A chip that has come from power-on by some actions. -/
def IsReachable (p : Ppu) : Prop := ∃ tv history, p = (powerOn tv).run history

theorem IsReachable.isOrdered (h : p.IsReachable) : p.sprites.IsOrdered := by
  obtain ⟨tv, history, rfl⟩ := h
  exact isOrdered_run (p := powerOn tv) List.Pairwise.nil history

end Ordered

/-! ## Where the first sprite meets the background -/

/-- At a column the first sprite meets the background: both are opaque there, and neither is hidden
at the left border. The last column does not count. -/
structure MeetsFirstAt (p : Ppu) (x : Nat) : Prop where
  counts : x ≠ 255
  background : p.controls.showsBackground = true ∧ (8 ≤ x ∨ p.controls.showsBackgroundLeft = true)
  colour : p.shifters.colour p.controls.fineX ≠ 0
  sprites : p.controls.showsSprites = true ∧ (8 ≤ x ∨ p.controls.showsSpritesLeft = true)
  pixel : (p.sprites.firstPixel? x).isSome = true

/-- The dot under the beam is on the picture, and there the first sprite meets the background. -/
structure MeetsFirst (p : Ppu) : Prop where
  line : 0 ≤ p.beam.line ∧ p.beam.line < 240
  dot : 1 ≤ p.beam.dot ∧ p.beam.dot ≤ 256
  meets : p.MeetsFirstAt (p.beam.dot - 1)

section Meets

variable {p : Ppu}

theorem colour_backgroundAt_ne_zero_iff (p : Ppu) (x : Nat) :
    (p.backgroundAt x).1 ≠ 0 ↔
      (p.controls.showsBackground = true ∧ (8 ≤ x ∨ p.controls.showsBackgroundLeft = true)) ∧
        p.shifters.colour p.controls.fineX ≠ 0 := by
  unfold backgroundAt
  split
  · next hshown =>
    rw [Bool.and_eq_true, Bool.or_eq_true, decide_eq_true_eq] at hshown
    exact (and_iff_right hshown).symm
  · next hhidden =>
    rw [Bool.and_eq_true, Bool.or_eq_true, decide_eq_true_eq] at hhidden
    exact iff_of_false (fun hcolour ↦ hcolour rfl) fun hboth ↦ hhidden hboth.1

theorem any_first_spriteAt_iff (h : p.sprites.IsOrdered) (x : Nat) :
    (p.spriteAt x).any (·.first) = true ↔
      (p.controls.showsSprites = true ∧ (8 ≤ x ∨ p.controls.showsSpritesLeft = true)) ∧
        (p.sprites.firstPixel? x).isSome = true := by
  unfold spriteAt
  split
  · next hshown =>
    rw [Bool.and_eq_true, Bool.or_eq_true, decide_eq_true_eq] at hshown
    rw [SpriteUnit.any_first_pixel? h]
    exact (and_iff_right hshown).symm
  · next hhidden =>
    rw [Bool.and_eq_true, Bool.or_eq_true, decide_eq_true_eq] at hhidden
    exact iff_of_false Bool.false_ne_true fun hboth ↦ hhidden hboth.1

theorem hitsAt_iff (h : p.sprites.IsOrdered) (x : Nat) :
    hitsAt (p.backgroundAt x) (p.spriteAt x) x = true ↔ p.MeetsFirstAt x := by
  have hhits : hitsAt (p.backgroundAt x) (p.spriteAt x) x =
      ((p.spriteAt x).any (·.first) && (p.backgroundAt x).1 != 0 && x != 255) := by
    cases p.spriteAt x with
    | none => rfl
    | some pixel => rfl
  rw [hhits, Bool.and_eq_true, Bool.and_eq_true, bne_iff_ne, bne_iff_ne, any_first_spriteAt_iff h,
    colour_backgroundAt_ne_zero_iff]
  constructor
  · rintro ⟨⟨⟨hsprites, hpixel⟩, hbackground, hcolour⟩, hcounts⟩
    exact ⟨hcounts, hbackground, hcolour, hsprites, hpixel⟩
  · rintro ⟨hcounts, hbackground, hcolour, hsprites, hpixel⟩
    exact ⟨⟨⟨hsprites, hpixel⟩, hbackground, hcolour⟩, hcounts⟩

/-- A dot sets the flag where the first sprite meets the background. -/
theorem spriteHit_drawDot (h : p.sprites.IsOrdered) :
    p.drawDot.spriteHit = true ↔ p.spriteHit = true ∨ p.MeetsFirst := by
  unfold drawDot
  dsimp only
  split
  · next hplace =>
    unfold drawPixel
    split
    · dsimp only
      rw [Bool.or_eq_true, hitsAt_iff h]
      exact or_congr_right ⟨fun hmeets ↦ ⟨by omega, by omega, hmeets⟩, MeetsFirst.meets⟩
    · next hdark =>
      refine (or_iff_left fun hmeets ↦ hdark ?_).symm
      rw [Controls.rendering, hmeets.meets.background.1, Bool.true_or]
  · next houtside =>
    refine (or_iff_left fun hmeets ↦ houtside ?_).symm
    obtain ⟨hline, hdot, -⟩ := hmeets
    omega

end Meets

/-! ## Chips that differ by the other sprites -/

/-- The chip with other sprites, and with what comes of them. -/
def disguise (p : Ppu) (sprites : SpriteUnit) (spriteOverflow : Bool) (ioBus : UInt8)
    (frame : FrameBuffer) : Ppu :=
  { p with controls := { p.controls with ioBus }, sprites, spriteOverflow, frame }

/-- The chips differ by the other sprites only, and by what comes of them. -/
def Alike (p q : Ppu) : Prop :=
  ∃ sprites spriteOverflow ioBus frame,
    q = p.disguise sprites spriteOverflow ioBus frame ∧ p.sprites.SharesFirst sprites

namespace Alike

variable {p q : Ppu}

theorem ite {c : Prop} [Decidable c] {p' q' : Ppu} (h : p.Alike q) (h' : p'.Alike q') :
    (if c then p else p').Alike (if c then q else q') := by
  split
  · exact h
  · exact h'

theorem updateStatus (h : p.Alike q) : p.updateStatus.Alike q.updateStatus := by
  obtain ⟨sprites, overflow, ioBus, frame, rfl, hfirst⟩ := h
  exact ite ⟨_, _, _, _, rfl, hfirst⟩
    (ite ⟨_, _, _, _, rfl, hfirst⟩ ⟨_, _, _, _, rfl, hfirst⟩)

theorem shift (h : p.Alike q) : p.shift.Alike q.shift := by
  obtain ⟨sprites, overflow, ioBus, frame, rfl, hfirst⟩ := h
  exact ite ⟨_, _, _, _, rfl, hfirst⟩ ⟨_, _, _, _, rfl, hfirst⟩

theorem fetchTile (h : p.Alike q) (fetch : UInt16 → UInt8) (dot : Nat) :
    (p.fetchTile fetch dot).Alike (q.fetchTile fetch dot) := by
  obtain ⟨sprites, overflow, ioBus, frame, rfl, hfirst⟩ := h
  unfold Ppu.fetchTile
  split
  all_goals exact ⟨_, _, _, _, rfl, hfirst⟩

theorem scroll (h : p.Alike q) (dot : Nat) : (p.scroll dot).Alike (q.scroll dot) := by
  obtain ⟨sprites, overflow, ioBus, frame, rfl, hfirst⟩ := h
  exact ite ⟨_, _, _, _, rfl, hfirst⟩
    (ite ⟨_, _, _, _, rfl, hfirst⟩
      (ite ⟨_, _, _, _, rfl, hfirst⟩ ⟨_, _, _, _, rfl, hfirst⟩))

theorem selectSprites (h : p.Alike q) (fetch : UInt16 → UInt8) :
    (p.selectSprites fetch).Alike (q.selectSprites fetch) := by
  obtain ⟨sprites, overflow, ioBus, frame, rfl, hfirst⟩ := h
  exact ⟨_, _, _, _, rfl, hfirst.select _ (bit p.controls.control 5) _ fetch⟩

theorem beam (h : p.Alike q) : q.beam = p.beam := by
  obtain ⟨_, _, _, _, rfl, -⟩ := h
  rfl

theorem rendering (h : p.Alike q) : q.controls.rendering = p.controls.rendering := by
  obtain ⟨_, _, _, _, rfl, -⟩ := h
  rfl

theorem spriteHit (h : p.Alike q) : q.spriteHit = p.spriteHit := by
  obtain ⟨_, _, _, _, rfl, -⟩ := h
  rfl

theorem fetchDot (h : p.Alike q) (fetch : UInt16 → UInt8) :
    (p.fetchDot fetch).Alike (q.fetchDot fetch) := by
  unfold Ppu.fetchDot
  dsimp only
  rw [h.beam]
  have hscrolled := (ite (c := isFetchDot p.beam.dot) (h.shift.fetchTile fetch p.beam.dot) h).scroll
    p.beam.dot
  exact ite (hscrolled.selectSprites fetch) hscrolled

theorem fetched (h : p.Alike q) (fetch : UInt16 → UInt8) :
    (p.fetched fetch).Alike (q.fetched fetch) := by
  unfold Ppu.fetched
  rw [h.rendering, h.beam]
  exact ite (h.updateStatus.fetchDot fetch) h.updateStatus

theorem sampleNmi (h : p.Alike q) : p.sampleNmi.2.Alike q.sampleNmi.2 := by
  obtain ⟨sprites, overflow, ioBus, frame, rfl, hfirst⟩ := h
  exact ⟨_, _, _, _, rfl, hfirst⟩

theorem moveBeam (h : p.Alike q) (rendering : Bool) :
    (p.moveBeam rendering).2.Alike (q.moveBeam rendering).2 := by
  obtain ⟨sprites, overflow, ioBus, frame, rfl, hfirst⟩ := h
  exact ite ⟨_, _, _, _, rfl, hfirst⟩ ⟨_, _, _, _, rfl, hfirst⟩

theorem meetsFirst (h : p.Alike q) : q.MeetsFirst ↔ p.MeetsFirst := by
  obtain ⟨sprites, overflow, ioBus, frame, rfl, hfirst⟩ := h
  constructor
  · rintro ⟨hline, hdot, hcounts, hbackground, hcolour, hsprites, hpixel⟩
    refine ⟨hline, hdot, hcounts, hbackground, hcolour, hsprites, ?_⟩
    rw [← hfirst.pixel]
    exact hpixel
  · rintro ⟨hline, hdot, hcounts, hbackground, hcolour, hsprites, hpixel⟩
    refine ⟨hline, hdot, hcounts, hbackground, hcolour, hsprites, ?_⟩
    rw [← hfirst.pixel] at hpixel
    exact hpixel

theorem drawDot (h : p.Alike q) (hp : p.sprites.IsOrdered) (hq : q.sprites.IsOrdered) :
    p.drawDot.Alike q.drawDot := by
  -- the pixels drawn may differ, the flag may not
  have hhit : q.drawDot.spriteHit = p.drawDot.spriteHit := by
    rw [Bool.eq_iff_iff, spriteHit_drawDot hq, spriteHit_drawDot hp, h.spriteHit, h.meetsFirst]
  obtain ⟨hit, frame, hdrawn⟩ := p.drawDot_eq
  obtain ⟨hit', frame', hdrawn'⟩ := q.drawDot_eq
  rw [hdrawn, hdrawn'] at hhit ⊢
  obtain rfl : hit' = hit := hhit
  obtain ⟨sprites, overflow, ioBus, frame, rfl, hfirst⟩ := h
  exact ⟨_, _, _, _, rfl, hfirst⟩

theorem tick (h : p.Alike q) (hp : p.sprites.IsOrdered) (hq : q.sprites.IsOrdered)
    (fetch : UInt16 → UInt8) : (p.tick fetch).ppu.Alike (q.tick fetch).ppu := by
  rw [tick_fetched, tick_fetched, h.rendering]
  exact (((h.fetched fetch).drawDot (isOrdered_fetched fetch hp)
    (isOrdered_fetched fetch hq)).sampleNmi).moveBeam _

theorem advanceAddress (h : p.Alike q) : p.advanceAddress.Alike q.advanceAddress := by
  obtain ⟨sprites, overflow, ioBus, frame, rfl, hfirst⟩ := h
  have hadvance (fetching : Bool) :
      { p.controls with ioBus }.advance fetching = { p.controls.advance fetching with ioBus } := by
    cases fetching with
    | true => rfl
    | false => rfl
  unfold Ppu.advanceAddress
  dsimp only [disguise]
  rw [hadvance]
  exact ⟨_, _, _, _, rfl, hfirst⟩

theorem readData (h : p.Alike q) (fetch : UInt16 → UInt8) :
    (p.readData fetch).2.Alike (q.readData fetch).2 := by
  obtain ⟨sprites, overflow, ioBus, frame, rfl, hfirst⟩ := h
  have haddress : (p.disguise sprites overflow ioBus frame).dataAddress = p.dataAddress := rfl
  unfold Ppu.readData
  dsimp only
  rw [haddress]
  split
  · exact advanceAddress ⟨_, _, _, _, rfl, hfirst⟩
  · exact advanceAddress ⟨_, _, _, _, rfl, hfirst⟩

theorem writeData (h : p.Alike q) (value : UInt8) :
    (p.writeData value).1.Alike (q.writeData value).1 ∧
      (q.writeData value).2 = (p.writeData value).2 := by
  obtain ⟨sprites, overflow, ioBus, frame, rfl, hfirst⟩ := h
  have haddress : (p.disguise sprites overflow ioBus frame).dataAddress = p.dataAddress := rfl
  unfold Ppu.writeData
  dsimp only
  rw [haddress]
  split
  · exact ⟨advanceAddress ⟨_, _, _, _, rfl, hfirst⟩, rfl⟩
  · exact ⟨advanceAddress ⟨_, _, _, _, rfl, hfirst⟩, rfl⟩

theorem busRead (h : p.Alike q) (fetch : UInt16 → UInt8) (index : Fin 8) :
    (p.busRead fetch index).2.Alike (q.busRead fetch index).2 := by
  have hdata := h.readData fetch
  obtain ⟨sprites, overflow, ioBus, frame, rfl, hfirst⟩ := h
  unfold Ppu.busRead
  split
  · exact ⟨_, _, _, _, rfl, hfirst⟩
  · exact ⟨_, _, _, _, rfl, hfirst⟩
  · obtain ⟨_, _, _, _, hread, hsame⟩ := hdata
    dsimp only
    rw [hread]
    exact ⟨_, _, _, _, rfl, hsame⟩
  · exact ⟨_, _, _, _, rfl, hfirst⟩

theorem busWrite (h : p.Alike q) (index : Fin 8) (value : UInt8) :
    (p.busWrite index value).1.Alike (q.busWrite index value).1 ∧
      (q.busWrite index value).2 = (p.busWrite index value).2 := by
  obtain ⟨sprites, overflow, ioBus, frame, rfl, hfirst⟩ := h
  unfold Ppu.busWrite
  split
  · exact ⟨⟨_, _, _, _, rfl, hfirst⟩, rfl⟩
  · exact ⟨⟨_, _, _, _, rfl, hfirst⟩, rfl⟩
  · exact ⟨⟨_, _, _, _, rfl, hfirst⟩, rfl⟩
  · exact ⟨⟨_, _, _, _, rfl, hfirst⟩, rfl⟩
  · exact ⟨⟨_, _, _, _, rfl, hfirst.write _ _⟩, rfl⟩
  · exact ⟨⟨_, _, _, _, rfl, hfirst⟩, rfl⟩
  · exact ⟨⟨_, _, _, _, rfl, hfirst⟩, rfl⟩
  · -- the byte written is on both buses now
    have hlatched : Alike { p with controls := { p.controls with ioBus := value } }
        (p.disguise sprites overflow value frame) := ⟨_, _, _, _, rfl, hfirst⟩
    exact hlatched.writeData value

end Alike

/-! ## When the flag is up -/

/-- The second highest bit of the status register is the flag. -/
theorem bit_statusByte_six (p : Ppu) : bit p.statusByte 6 = p.spriteHit := by
  have hoverflow := p.spriteOverflow.toNat_le
  rw [bit, statusByte, UInt8.toNat_ofNat', Nat.testBit_eq_decide_div_mod_eq]
  cases p.spriteHit with
  | true =>
    rw [Bool.toNat_true, decide_eq_true_eq]
    omega
  | false =>
    rw [Bool.toNat_false, decide_eq_false_iff_not]
    omega

theorem spriteHit_updateStatus (p : Ppu) :
    p.updateStatus.spriteHit = (p.spriteHit && !p.beam.isAt Beam.preRenderLine 1) := by
  rw [updateStatus]
  split
  · next hstart =>
    have hnot : p.beam.isAt Beam.preRenderLine 1 = false := by
      simp only [Beam.isAt, Beam.blankLine, Bool.and_eq_true, beq_iff_eq] at hstart
      simp only [Beam.isAt, Beam.preRenderLine, hstart.1]
      rfl
    rw [hnot]
    exact (Bool.and_true _).symm
  · split
    · next hend =>
      rw [hend]
      exact (Bool.and_false _).symm
    · next hother =>
      rw [Bool.eq_false_iff.mpr hother]
      exact (Bool.and_true _).symm

theorem spriteHit_fetched (p : Ppu) (fetch : UInt16 → UInt8) :
    (p.fetched fetch).spriteHit = p.updateStatus.spriteHit := by
  obtain ⟨_, _, _, _, _, hfetch⟩ := p.updateStatus.fetchDot_eq fetch
  unfold fetched
  split
  · rw [hfetch]
  · rfl

/-- A dot raises the flag where the first sprite meets the background, and the dot that ends the
vertical blank takes it down. -/
theorem spriteHit_tick {p : Ppu} (h : p.sprites.IsOrdered) (fetch : UInt16 → UInt8) :
    (p.tick fetch).ppu.spriteHit = true ↔
      (p.fetched fetch).MeetsFirst ∨
        p.spriteHit = true ∧ p.beam.isAt Beam.preRenderLine 1 = false := by
  have hdrawn : (p.tick fetch).ppu.spriteHit = (p.fetched fetch).drawDot.spriteHit := by
    obtain ⟨_, hmove⟩ := (p.fetched fetch).drawDot.sampleNmi.2.moveBeam_eq p.controls.rendering
    rw [tick_fetched]
    dsimp only
    rw [hmove]
    rfl
  rw [hdrawn, spriteHit_drawDot (isOrdered_fetched fetch h), spriteHit_fetched,
    spriteHit_updateStatus, Bool.and_eq_true, Bool.not_eq_true', or_comm]

end Ppu

namespace Bus

/-- What happens to the picture chip. -/
inductive PictureAccess where
  | dot
  | read (index : Fin 8)
  | write (index : Fin 8) (value : UInt8)

/-- The bus after an access to the picture chip. -/
def accessPicture (b : Bus) : PictureAccess → Bus
  | .dot => b.clockPicture.2
  | .read index => (b.readPicture index).2
  | .write index value => b.writePicture index value

/-- The access as the chip sees it. -/
def PictureAccess.action (slot : Slot) : PictureAccess → Ppu.Action
  | .dot => .dot slot.readPpu
  | .read index => .read slot.readPpu index
  | .write index value => .write index value

theorem ppu_accessPicture (b : Bus) (access : PictureAccess) :
    (b.accessPicture access).ppu = b.ppu.act (access.action b.slot) := by
  cases access with
  | dot => rfl
  | read index => rfl
  | write index value =>
    unfold accessPicture writePicture
    dsimp only
    split
    · rfl
    · rfl

theorem slot_accessPicture {b c : Bus} (hslot : c.slot = b.slot) (h : b.ppu.Alike c.ppu)
    (access : PictureAccess) : (c.accessPicture access).slot = (b.accessPicture access).slot := by
  cases access with
  | dot => exact hslot
  | read index => exact hslot
  | write index value =>
    have hpassed := (h.busWrite index value).2
    unfold accessPicture writePicture
    dsimp only
    rw [hpassed]
    split
    · exact hslot
    · dsimp only
      rw [hslot]

/-- The buses differ by the sprites behind the first only. -/
structure FollowsFirst (b c : Bus) : Prop where
  slot : c.slot = b.slot
  alike : b.ppu.Alike c.ppu
  ordered : b.ppu.sprites.IsOrdered
  ordered' : c.ppu.sprites.IsOrdered

namespace FollowsFirst

variable {b c : Bus}

theorem accessPicture (h : b.FollowsFirst c) (access : PictureAccess) :
    (b.accessPicture access).FollowsFirst (c.accessPicture access) where
  slot := slot_accessPicture h.slot h.alike access
  alike := by
    rw [ppu_accessPicture, ppu_accessPicture, h.slot]
    cases access with
    | dot => exact h.alike.tick h.ordered h.ordered' b.slot.readPpu
    | read index => exact h.alike.busRead b.slot.readPpu index
    | write index value => exact (h.alike.busWrite index value).1
  ordered := by
    rw [ppu_accessPicture]
    exact Ppu.isOrdered_act h.ordered _
  ordered' := by
    rw [ppu_accessPicture]
    exact Ppu.isOrdered_act h.ordered' _

theorem run (h : b.FollowsFirst c) (accesses : List PictureAccess) :
    (accesses.foldl Bus.accessPicture b).FollowsFirst (accesses.foldl Bus.accessPicture c) := by
  induction accesses generalizing b c with
  | nil => exact h
  | cons access rest ih => exact ih (h.accessPicture access)

end FollowsFirst

/-- What an access makes of the flag. -/
theorem spriteHit_accessPicture {b : Bus} (h : b.ppu.sprites.IsOrdered) (access : PictureAccess) :
    (b.accessPicture access).ppu.spriteHit = true ↔
      access = .dot ∧ (b.ppu.fetched b.slot.readPpu).MeetsFirst ∨
        b.ppu.spriteHit = true ∧
          ¬(access = .dot ∧ b.ppu.beam.isAt Beam.preRenderLine 1 = true) := by
  have hother (hnot : access ≠ .dot)
      (hkept : (b.accessPicture access).ppu.spriteHit = b.ppu.spriteHit) :
      (b.accessPicture access).ppu.spriteHit = true ↔
        access = .dot ∧ (b.ppu.fetched b.slot.readPpu).MeetsFirst ∨
          b.ppu.spriteHit = true ∧
            ¬(access = .dot ∧ b.ppu.beam.isAt Beam.preRenderLine 1 = true) := by
    rw [hkept]
    constructor
    · intro hup
      exact Or.inr ⟨hup, fun hdot ↦ hnot hdot.1⟩
    · rintro (⟨hdot, -⟩ | ⟨hup, -⟩)
      · exact absurd hdot hnot
      · exact hup
  cases access with
  | dot =>
    refine (Ppu.spriteHit_tick h b.slot.readPpu).trans ?_
    rw [eq_self, true_and, true_and, Bool.not_eq_true]
  | read index =>
    obtain ⟨_, _, hread, -⟩ := b.ppu.busRead_cases b.slot.readPpu index
    refine hother (fun hdot ↦ PictureAccess.noConfusion hdot) ?_
    change (b.ppu.busRead b.slot.readPpu index).2.spriteHit = _
    rw [hread]
  | write index value =>
    obtain ⟨_, _, _, hwrite, -⟩ := b.ppu.busWrite_cases index value
    refine hother (fun hdot ↦ PictureAccess.noConfusion hdot) ?_
    rw [ppu_accessPicture]
    change (b.ppu.busWrite index value).1.spriteHit = _
    rw [hwrite]

/-- **The hit of the first sprite.** On two buses that are the same but for the bytes of the other
sprites and what is selected of them, the flag is the same after any accesses to the picture chip.
It is raised by the dots on which the first sprite meets the background, and stays up until the dot
that ends the vertical blank. -/
theorem spriteHit_follows_first {b c : Bus} (hb : b.ppu.IsReachable) (hc : c.ppu.IsReachable)
    (hslot : c.slot = b.slot) (hrest : c.ppu = { b.ppu with sprites := c.ppu.sprites })
    (hfirst : b.ppu.sprites.SharesFirst c.ppu.sprites) (accesses : List PictureAccess) :
    let b' := accesses.foldl accessPicture b
    let c' := accesses.foldl accessPicture c
    bit c'.ppu.statusByte 6 = bit b'.ppu.statusByte 6 ∧
      ∀ access, bit (b'.accessPicture access).ppu.statusByte 6 = true ↔
        access = .dot ∧ (b'.ppu.fetched b'.slot.readPpu).MeetsFirst ∨
          bit b'.ppu.statusByte 6 = true ∧
            ¬(access = .dot ∧ b'.ppu.beam.isAt Beam.preRenderLine 1 = true) := by
  intro b' c'
  have hstart : b.FollowsFirst c :=
    ⟨hslot, ⟨_, _, _, _, hrest, hfirst⟩, hb.isOrdered, hc.isOrdered⟩
  have hrun : b'.FollowsFirst c' := hstart.run accesses
  refine ⟨?_, fun access ↦ ?_⟩
  · rw [Ppu.bit_statusByte_six, Ppu.bit_statusByte_six, hrun.alike.spriteHit]
  · rw [Ppu.bit_statusByte_six, Ppu.bit_statusByte_six]
    exact spriteHit_accessPicture hrun.ordered access

/-- The second sprite is moved, and no program can tell by the flag. -/
theorem spriteHit_follows_first_moved :
    ∃ b c : Bus,
      b = (powerOn .ntsc .empty).writePicture 3 0 ∧
        c = (((powerOn .ntsc .empty).writePicture 3 4).writePicture 4 0x20).writePicture 3 0 ∧
        ∀ accesses : List PictureAccess,
          bit (accesses.foldl accessPicture c).ppu.statusByte 6 =
            bit (accesses.foldl accessPicture b).ppu.statusByte 6 := by
  have hfirst : SpriteUnit.blank.SharesFirst (SpriteUnit.blank.write 4 0x20) :=
    SpriteUnit.sharesFirst_write _ (by decide) _
  refine ⟨_, _, rfl, rfl, fun accesses ↦ ?_⟩
  exact (spriteHit_follows_first (b := (powerOn .ntsc .empty).writePicture 3 0)
    (c := (((powerOn .ntsc .empty).writePicture 3 4).writePicture 4 0x20).writePicture 3 0)
    ⟨.ntsc, [.write 3 0], rfl⟩ ⟨.ntsc, [.write 3 4, .write 4 0x20, .write 3 0], rfl⟩
    rfl rfl hfirst accesses).1

end Bus

end Famicom
