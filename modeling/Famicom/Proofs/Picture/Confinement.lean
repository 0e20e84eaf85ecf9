import Famicom.Proofs.Picture.Blanking
import Famicom.Proofs.Safety.Picture

/-!
# What the chip asks of the cartridge

A board answers whatever address the chip puts on the bus and does not look whether it is one of its
own. That is sound because the chip asks for nothing else. The addresses are built from registers
that are moved, copied and written at arbitrary times, and still each purpose keeps to its part of
the bus:

```text
pattern, sprite    0000 ..< 2000,
tile               2000 ..< 3000,
attributes         the last 64 bytes of the nametable that the scroll address is in,
data, and writes   0000 ..< 3f00.
```

The bounds need nothing of the chip but the widths of its fields. What holds a sprite's row within
its pattern is the selection, which passes only sprites that reach the line.

## The list is exact

`Ppu.fetches` lists the reads of an action, each with its purpose. Two cartridges that have the same
bytes at these addresses are the same to the chip (`Ppu.act_congr`), so nothing is missing. What a
byte is read for is where it goes: into one of the fields of the latch, into the selection of
sprites, or into the buffer of the data register. An address is in the list for a purpose just if
what is kept for the purpose depends on the byte there (`Ppu.consults_iff`).
-/

namespace Famicom

namespace Ppu

/-! ## The reads of an action -/

/-- What the cartridge is read for. -/
inductive Purpose where
  /-- The number of a tile of the background. -/
  | tile
  /-- The palette of a tile of the background. -/
  | attributes
  /-- A plane of a row of a tile of the background. -/
  | pattern
  /-- A plane of a row of a sprite. -/
  | sprite
  /-- An access through the data register. -/
  | data
  deriving DecidableEq, Repr

/-- A read of the cartridge. -/
structure Fetch where
  purpose : Purpose
  addr : UInt16
  deriving DecidableEq, Repr

/-- The reads of the cartridge for a read of the chip's address space. The palette needs none. -/
def spaceFetches (purpose : Purpose) (addr : UInt16) : List Fetch :=
  let addr := busAddress addr
  if paletteStart ≤ addr.toNat then [] else [⟨purpose, addr⟩]

variable (p : Ppu)

/-- The reads that belong to a dot of the eight that a tile takes. -/
def tileFetches (dot : Nat) : List Fetch :=
  match (dot - 1) % 8 with
  | 0 => spaceFetches .tile p.controls.v.tileAddress
  | 2 => spaceFetches .attributes p.controls.v.attributeAddress
  | 4 => spaceFetches .pattern
      (p.latch.rowAddress p.controls.backgroundTable p.controls.v.fineY 0)
  | 6 => spaceFetches .pattern
      (p.latch.rowAddress p.controls.backgroundTable p.controls.v.fineY 8)
  | _ => []

/-- The reads of the selection of sprites. -/
def spriteFetches : List Fetch :=
  let line := p.beam.line
  let height := p.controls.spriteHeight
  ((p.sprites.evaluate line height).fetches line height p.controls.spriteTable).map (⟨.sprite, ·⟩)

/-- The reads of a dot on which the picture is rendered. -/
def renderFetches : List Fetch :=
  (if isFetchDot p.beam.dot then p.tileFetches p.beam.dot else []) ++
    if p.beam.dot = 257 then p.spriteFetches else []

/-- The reads of a dot. -/
def dotFetches : List Fetch :=
  if p.controls.rendering && p.beam.onRenderLine then p.renderFetches else []

/-- The reads of a read of the data register. -/
def dataFetches : List Fetch :=
  let addr := p.dataAddress
  if paletteStart ≤ addr.toNat then spaceFetches .data (addr - 0x1000)
  else spaceFetches .data addr

/-- The reads of an action. -/
def fetches : Action → List Fetch
  | .dot _ => p.dotFetches
  | .read _ index => if index.val = 7 then p.dataFetches else []
  | .write _ _ => []
  | .reset => []

/-- What an action sends to the cartridge. -/
def sent? : Action → Option CartridgeWrite
  | .write index value => (p.busWrite index value).2
  | _ => none

/-- The action, if it finds another cartridge. -/
def Action.against (fetch : UInt16 → UInt8) : Action → Action
  | .dot _ => .dot fetch
  | .read _ index => .read fetch index
  | .write index value => .write index value
  | .reset => .reset

/-- What a chip keeps of the bytes it has read. -/
structure Holdings where
  latch : TileLatch
  selected : List LineSprite
  dataBuffer : UInt8

/-- What the chip keeps of the bytes it has read. -/
def holdings : Holdings := ⟨p.latch, p.sprites.selected, p.controls.dataBuffer⟩

/-- The same is kept for a purpose. -/
def Purpose.Same (a b : Holdings) : Purpose → Prop
  | .tile => a.latch.tile = b.latch.tile
  | .attributes => a.latch.palette = b.latch.palette
  | .pattern => a.latch.low = b.latch.low ∧ a.latch.high = b.latch.high
  | .sprite => a.selected = b.selected
  | .data => a.dataBuffer = b.dataBuffer

/-- What the action leaves for the purpose of a read depends on the byte of the cartridge there. -/
def Consults (action : Action) (r : Fetch) : Prop :=
  ∃ f g : UInt16 → UInt8,
    (∀ other, other ≠ r.addr → f other = g other) ∧
      ¬ r.purpose.Same (p.act (action.against f)).holdings (p.act (action.against g)).holdings

variable {p} {f g : UInt16 → UInt8} {purpose : Purpose} {addr : UInt16} {r : Fetch}
  {action : Action}

theorem mem_spaceFetches :
    r ∈ spaceFetches purpose addr ↔
      r = ⟨purpose, busAddress addr⟩ ∧ (busAddress addr).toNat < paletteStart := by
  unfold spaceFetches
  dsimp only
  rw [List.mem_ite_nil_left, List.mem_singleton, Nat.not_le, and_comm]

theorem purpose_of_mem (hr : r ∈ spaceFetches purpose addr) : r.purpose = purpose := by
  rw [(mem_spaceFetches.mp hr).1]

/-- Where a sprite's row for the next line is. -/
def spriteAddress (p : Ppu) (s : Sprite) : UInt16 :=
  s.patternAddress p.beam.line p.controls.spriteHeight p.controls.spriteTable

/-- The sprites that a selection would find. -/
def shown (p : Ppu) : List Sprite := (p.sprites.evaluate p.beam.line p.controls.spriteHeight).shown

theorem mem_spriteFetches :
    r ∈ p.spriteFetches ↔
      ∃ s ∈ p.shown, r = ⟨.sprite, p.spriteAddress s⟩ ∨ r = ⟨.sprite, p.spriteAddress s + 8⟩ := by
  simp only [spriteFetches, SpriteUnit.Evaluation.fetches, shown, spriteAddress, List.map_flatMap,
    List.map_cons, List.map_nil, List.mem_flatMap, List.mem_cons, List.not_mem_nil, or_false]

theorem selected_selectSprites (p : Ppu) (fetch : UInt16 → UInt8) :
    (p.selectSprites fetch).sprites.selected =
      p.shown.map fun s ↦ ⟨s, fetch (p.spriteAddress s), fetch (p.spriteAddress s + 8)⟩ := rfl

theorem readSpace_eq (p : Ppu) (fetch : UInt16 → UInt8)
    (h : (busAddress addr).toNat < paletteStart) :
    p.readSpace fetch addr = fetch (busAddress addr) :=
  if_neg (Nat.not_le_of_lt h)

/-! ## Nothing else is read -/

/-- The two cartridges have the same bytes where the reads are. -/
def AgreeOn (f g : UInt16 → UInt8) (reads : List Fetch) : Prop := ∀ r ∈ reads, f r.addr = g r.addr

theorem readSpace_congr (p : Ppu) (h : AgreeOn f g (spaceFetches purpose addr)) :
    p.readSpace f addr = p.readSpace g addr := by
  by_cases hcartridge : (busAddress addr).toNat < paletteStart
  · rw [p.readSpace_eq f hcartridge, p.readSpace_eq g hcartridge]
    exact h _ (mem_spaceFetches.mpr ⟨rfl, hcartridge⟩)
  · rw [readSpace, readSpace, if_pos (Nat.le_of_not_lt hcartridge),
      if_pos (Nat.le_of_not_lt hcartridge)]

theorem fetchTile_congr {dot : Nat} (h : AgreeOn f g (p.tileFetches dot)) :
    p.fetchTile f dot = p.fetchTile g dot := by
  unfold fetchTile
  unfold tileFetches at h
  dsimp only
  split <;> simp only [*] at h
  · rw [p.readSpace_congr h]
  · rw [p.readSpace_congr h]
  · rw [p.readSpace_congr h]
  · rw [p.readSpace_congr h]
  · rfl
  · rfl

theorem selectSprites_congr (h : AgreeOn f g p.spriteFetches) :
    p.selectSprites f = p.selectSprites g := by
  have hselected : (p.selectSprites f).sprites.selected = (p.selectSprites g).sprites.selected := by
    rw [selected_selectSprites, selected_selectSprites]
    refine List.map_congr_left fun s hs ↦ ?_
    rw [h _ (mem_spriteFetches.mpr ⟨s, hs, .inl rfl⟩),
      h _ (mem_spriteFetches.mpr ⟨s, hs, .inr rfl⟩)]
  unfold selectSprites SpriteUnit.load at hselected ⊢
  dsimp only at hselected ⊢
  rw [hselected]

/-- The part of the background in a dot: the pipeline, and the movements of the scroll address. -/
def piped (p : Ppu) (fetch : UInt16 → UInt8) : Ppu :=
  (if isFetchDot p.beam.dot then p.shift.fetchTile fetch p.beam.dot else p).scroll p.beam.dot

theorem fetchDot_piped (p : Ppu) (fetch : UInt16 → UInt8) :
    p.fetchDot fetch =
      if p.beam.dot = 257 then (p.piped fetch).selectSprites fetch else p.piped fetch := rfl

/-- The fetch of a tile looks at the latch, the controls and the palette. -/
theorem latch_fetchTile {q : Ppu} (fetch : UInt16 → UInt8) (dot : Nat) (hlatch : q.latch = p.latch)
    (hcontrols : q.controls = p.controls) (hpalette : q.palette = p.palette) :
    (q.fetchTile fetch dot).latch = (p.fetchTile fetch dot).latch := by
  unfold fetchTile readSpace
  dsimp only
  rw [hlatch, hcontrols, hpalette]
  split
  case h_6 => exact hlatch
  all_goals rfl

theorem piped_eq (p : Ppu) (fetch : UInt16 → UInt8) :
    ∃ v shifters,
      p.piped fetch =
        { p with
          controls := { p.controls with v }
          latch := if isFetchDot p.beam.dot then (p.fetchTile fetch p.beam.dot).latch else p.latch
          shifters } := by
  unfold piped
  split
  · obtain ⟨shifters, hshift⟩ := p.shift_eq
    have hlatch : (p.shift.fetchTile fetch p.beam.dot).latch =
        (p.fetchTile fetch p.beam.dot).latch := by
      rw [hshift]
      exact latch_fetchTile fetch _ rfl rfl rfl
    obtain ⟨v, latch, shifters', hfetch⟩ := p.shift.fetchTile_eq fetch p.beam.dot
    obtain ⟨v', shifters'', hscroll⟩ := (p.shift.fetchTile fetch p.beam.dot).scroll_eq p.beam.dot
    rw [hscroll, ← hlatch, hfetch, hshift]
    exact ⟨v', shifters'', rfl⟩
  · exact p.scroll_eq p.beam.dot

theorem piped_congr
    (h : AgreeOn f g (if isFetchDot p.beam.dot then p.tileFetches p.beam.dot else [])) :
    p.piped f = p.piped g := by
  unfold piped
  split
  · next hdot =>
    obtain ⟨shifters, hshift⟩ := p.shift_eq
    have hfetches : p.shift.tileFetches p.beam.dot = p.tileFetches p.beam.dot := by
      rw [hshift]
      rfl
    rw [if_pos hdot, ← hfetches] at h
    rw [fetchTile_congr h]
  · rfl

theorem spriteFetches_piped (p : Ppu) (fetch : UInt16 → UInt8) :
    (p.piped fetch).spriteFetches = p.spriteFetches := by
  obtain ⟨v, shifters, hpiped⟩ := p.piped_eq fetch
  rw [hpiped]
  rfl

theorem fetchDot_congr (h : AgreeOn f g p.renderFetches) : p.fetchDot f = p.fetchDot g := by
  obtain ⟨htile, hsprite⟩ := List.forall_mem_append.mp h
  rw [fetchDot_piped, fetchDot_piped, piped_congr htile]
  split
  · next hlast =>
    rw [if_pos hlast, ← p.spriteFetches_piped g] at hsprite
    exact selectSprites_congr hsprite
  · rfl

theorem renderFetches_updateStatus (p : Ppu) :
    p.updateStatus.renderFetches = p.renderFetches := by
  obtain ⟨spriteHit, spriteOverflow, hstatus⟩ := p.updateStatus_eq
  rw [hstatus]
  rfl

/-- A dot reads nothing but what is listed. -/
theorem tick_congr (h : AgreeOn f g p.dotFetches) : p.tick f = p.tick g := by
  have hfetched : p.fetched f = p.fetched g := by
    unfold fetched
    unfold dotFetches at h
    split
    · next hrendering =>
      rw [if_pos hrendering, ← renderFetches_updateStatus] at h
      exact fetchDot_congr h
    · rfl
  rw [tick_fetched, tick_fetched, hfetched]

/-- A read of a register reads nothing of the cartridge but what is listed. -/
theorem busRead_congr {index : Fin 8}
    (h : AgreeOn f g (if index.val = 7 then p.dataFetches else [])) :
    p.busRead f index = p.busRead g index := by
  have hdata (hindex : index.val = 7) : p.readData f = p.readData g := by
    unfold readData
    unfold dataFetches at h
    dsimp only at h ⊢
    rw [if_pos hindex] at h
    split
    · next hpalette =>
      rw [if_pos hpalette] at h
      rw [p.readSpace_congr h]
    · next hpalette =>
      rw [if_neg hpalette] at h
      rw [p.readSpace_congr h]
  unfold busRead
  split
  · rfl
  · rfl
  · rw [hdata rfl]
  · rfl

/-- An action reads nothing but what is listed. -/
theorem act_congr (h : AgreeOn f g (p.fetches action)) :
    p.act (action.against f) = p.act (action.against g) := by
  cases action with
  | dot fetch => exact congrArg Tick.ppu (tick_congr h)
  | read fetch index => exact congrArg Prod.snd (busRead_congr h)
  | write index value => rfl
  | reset => rfl

/-! ## Where the bytes go -/

/-- The fetches of a dot bring a byte for the latch or the patterns of sprites, or both. -/
theorem holdings_fetchDot (p : Ppu) (fetch : UInt16 → UInt8) :
    (p.fetchDot fetch).holdings =
      { latch := if isFetchDot p.beam.dot then (p.fetchTile fetch p.beam.dot).latch else p.latch
        selected := if p.beam.dot = 257 then (p.selectSprites fetch).sprites.selected
          else p.sprites.selected
        dataBuffer := p.controls.dataBuffer } := by
  obtain ⟨v, shifters, hpiped⟩ := p.piped_eq fetch
  rw [fetchDot_piped, hpiped]
  split <;> rfl

theorem holdings_updateStatus (p : Ppu) (fetch : UInt16 → UInt8) :
    (p.updateStatus.fetchDot fetch).holdings = (p.fetchDot fetch).holdings := by
  obtain ⟨spriteHit, spriteOverflow, hstatus⟩ := p.updateStatus_eq
  have hbeam : p.updateStatus.beam = p.beam := by rw [hstatus]
  have hlatch : (p.updateStatus.fetchTile fetch p.beam.dot).latch =
      (p.fetchTile fetch p.beam.dot).latch := by
    rw [hstatus]
    exact latch_fetchTile fetch _ rfl rfl rfl
  have hselected : (p.updateStatus.selectSprites fetch).sprites.selected =
      (p.selectSprites fetch).sprites.selected := by
    rw [hstatus]
    rfl
  rw [holdings_fetchDot, holdings_fetchDot, hbeam, hlatch, hselected, hstatus]

/-- What is drawn after the fetches of a dot leaves what they have brought. -/
theorem holdings_tick (p : Ppu) (fetch : UInt16 → UInt8) :
    (p.tick fetch).ppu.holdings = (p.fetched fetch).holdings := by
  obtain ⟨spriteHit, _, hdraw⟩ := (p.fetched fetch).drawDot_eq
  obtain ⟨frame, hmove⟩ :=
    (p.fetched fetch).drawDot.sampleNmi.2.moveBeam_eq p.controls.rendering
  rw [tick_fetched]
  dsimp only
  rw [hmove, hdraw]
  rfl

theorem holdings_tick_of_rendering {fetch : UInt16 → UInt8}
    (h : (p.controls.rendering && p.beam.onRenderLine) = true) :
    (p.tick fetch).ppu.holdings = (p.fetchDot fetch).holdings := by
  rw [holdings_tick, fetched, if_pos h, holdings_updateStatus]

/-- A read of a register brings a byte for the buffer at most. -/
theorem holdings_busRead (p : Ppu) (fetch : UInt16 → UInt8) (index : Fin 8) :
    ∃ dataBuffer,
      (p.busRead fetch index).2.holdings = ⟨p.latch, p.sprites.selected, dataBuffer⟩ := by
  obtain ⟨controls, vblank, hread, -⟩ := p.busRead_cases fetch index
  rw [hread]
  exact ⟨_, rfl⟩

/-! ## What is kept for a purpose -/

namespace Purpose.Same

variable {a b c : Holdings}

theorem refl (purpose : Purpose) (a : Holdings) : purpose.Same a a := by
  cases purpose with
  | pattern => exact ⟨rfl, rfl⟩
  | _ => rfl

theorem trans (hab : purpose.Same a b) (hbc : purpose.Same b c) : purpose.Same a c := by
  cases purpose with
  | pattern => exact ⟨hab.1.trans hbc.1, hab.2.trans hbc.2⟩
  | _ => exact Eq.trans hab hbc

end Purpose.Same

/-- The two cartridges have the same bytes where the reads for a purpose are. -/
def AgreeFor (purpose : Purpose) (f g : UInt16 → UInt8) (reads : List Fetch) : Prop :=
  AgreeOn f g (reads.filter (·.purpose = purpose))

theorem agreeFor_append {reads more : List Fetch} :
    AgreeFor purpose f g (reads ++ more) ↔
      AgreeFor purpose f g reads ∧ AgreeFor purpose f g more := by
  unfold AgreeFor
  rw [List.filter_append]
  exact List.forall_mem_append

theorem AgreeFor.agreeOn {reads : List Fetch} (h : AgreeFor purpose f g reads)
    (hreads : ∀ r ∈ reads, r.purpose = purpose) : AgreeOn f g reads := fun r hr ↦
  h r (List.mem_filter.mpr ⟨hr, decide_eq_true (hreads r hr)⟩)

/-- A byte for the latch is kept for its purpose alone. -/
theorem same_fetchTile {dot : Nat} (h : AgreeFor purpose f g (p.tileFetches dot))
    (selected : List LineSprite) (dataBuffer : UInt8) :
    purpose.Same ⟨(p.fetchTile f dot).latch, selected, dataBuffer⟩
      ⟨(p.fetchTile g dot).latch, selected, dataBuffer⟩ := by
  have hread {addr : UInt16} (h : AgreeFor purpose f g (spaceFetches purpose addr)) :
      p.readSpace f addr = p.readSpace g addr :=
    p.readSpace_congr (h.agreeOn fun r hr ↦ purpose_of_mem hr)
  unfold fetchTile
  unfold tileFetches at h
  dsimp only
  split <;> simp only [*] at h
  · cases purpose with
    | tile => exact hread h
    | pattern => exact ⟨rfl, rfl⟩
    | _ => rfl
  · cases purpose with
    | attributes => exact congrArg p.controls.v.attributeOf (hread h)
    | pattern => exact ⟨rfl, rfl⟩
    | _ => rfl
  · cases purpose with
    | pattern => exact ⟨hread h, rfl⟩
    | _ => rfl
  · cases purpose with
    | pattern => exact ⟨rfl, hread h⟩
    | _ => rfl
  · exact .refl _ _
  · exact .refl _ _

theorem same_selectSprites (h : AgreeFor purpose f g p.spriteFetches) (latch : TileLatch)
    (dataBuffer : UInt8) :
    purpose.Same ⟨latch, (p.selectSprites f).sprites.selected, dataBuffer⟩
      ⟨latch, (p.selectSprites g).sprites.selected, dataBuffer⟩ := by
  cases purpose with
  | sprite =>
    have hagree : AgreeOn f g p.spriteFetches := h.agreeOn fun r hr ↦ by
      obtain ⟨s, -, rfl | rfl⟩ := mem_spriteFetches.mp hr <;> rfl
    exact congrArg (fun q : Ppu ↦ q.sprites.selected) (selectSprites_congr hagree)
  | pattern => exact ⟨rfl, rfl⟩
  | _ => rfl

theorem same_fetchDot (h : AgreeFor purpose f g p.renderFetches) :
    purpose.Same (p.fetchDot f).holdings (p.fetchDot g).holdings := by
  obtain ⟨htile, hsprite⟩ := agreeFor_append.mp h
  have hlatch (selected : List LineSprite) (dataBuffer : UInt8) :
      purpose.Same
        ⟨if isFetchDot p.beam.dot then (p.fetchTile f p.beam.dot).latch else p.latch,
          selected, dataBuffer⟩
        ⟨if isFetchDot p.beam.dot then (p.fetchTile g p.beam.dot).latch else p.latch,
          selected, dataBuffer⟩ := by
    split
    · next hdot =>
      rw [if_pos hdot] at htile
      exact same_fetchTile htile selected dataBuffer
    · exact .refl _ _
  have hselected (latch : TileLatch) (dataBuffer : UInt8) :
      purpose.Same
        ⟨latch, if p.beam.dot = 257 then (p.selectSprites f).sprites.selected
          else p.sprites.selected, dataBuffer⟩
        ⟨latch, if p.beam.dot = 257 then (p.selectSprites g).sprites.selected
          else p.sprites.selected, dataBuffer⟩ := by
    split
    · next hdot =>
      rw [if_pos hdot] at hsprite
      exact same_selectSprites hsprite latch dataBuffer
    · exact .refl _ _
  rw [holdings_fetchDot, holdings_fetchDot]
  exact (hlatch _ _).trans (hselected _ _)

/-- What an action leaves for a purpose depends on the reads for that purpose. -/
theorem same_act (h : AgreeFor purpose f g (p.fetches action)) :
    purpose.Same (p.act (action.against f)).holdings (p.act (action.against g)).holdings := by
  have hsame (hagree : AgreeOn f g (p.fetches action)) :
      purpose.Same (p.act (action.against f)).holdings (p.act (action.against g)).holdings :=
    act_congr hagree ▸ .refl _ _
  cases action with
  | dot fetch =>
    by_cases hrendering : (p.controls.rendering && p.beam.onRenderLine) = true
    · change purpose.Same (p.tick f).ppu.holdings (p.tick g).ppu.holdings
      rw [holdings_tick_of_rendering hrendering, holdings_tick_of_rendering hrendering]
      refine same_fetchDot ?_
      unfold fetches dotFetches at h
      rwa [if_pos hrendering] at h
    · refine hsame ?_
      unfold fetches dotFetches
      rw [if_neg hrendering]
      exact nofun
  | read fetch index =>
    by_cases hpurpose : purpose = .data
    · refine hsame (h.agreeOn fun r hr ↦ ?_)
      have hdata := (List.mem_ite_nil_right.mp hr).2
      unfold dataFetches at hdata
      dsimp only at hdata
      rw [hpurpose]
      split at hdata <;> exact purpose_of_mem hdata
    · obtain ⟨_, hf⟩ := p.holdings_busRead f index
      obtain ⟨_, hg⟩ := p.holdings_busRead g index
      change purpose.Same (p.busRead f index).2.holdings (p.busRead g index).2.holdings
      rw [hf, hg]
      cases purpose with
      | data => exact absurd rfl hpurpose
      | pattern => exact ⟨rfl, rfl⟩
      | _ => rfl
  | write index value => exact .refl _ _
  | reset => exact .refl _ _

/-! ## Everything listed is read -/

/-- A cartridge of zeros, but for the byte at one address. -/
def marked (addr : UInt16) (byte : UInt8) : UInt16 → UInt8 :=
  fun other ↦ if other = addr then byte else 0

theorem marked_self (addr : UInt16) (byte : UInt8) : marked addr byte addr = byte := if_pos rfl

theorem marked_of_ne {other : UInt16} (h : other ≠ addr) (byte : UInt8) :
    marked addr byte other = 0 := if_neg h

theorem readSpace_marked (p : Ppu) (hr : r ∈ spaceFetches purpose addr) (byte : UInt8) :
    p.readSpace (marked r.addr byte) addr = byte := by
  obtain ⟨rfl, hcartridge⟩ := mem_spaceFetches.mp hr
  rw [p.readSpace_eq _ hcartridge]
  exact marked_self _ _

theorem zero_ne_full : (0 : UInt8) ≠ 0xff := by decide

/-- Two bits of an attribute byte are kept, whichever they are. -/
theorem attributeOf_ne (a : ScrollAddress) : a.attributeOf 0 ≠ a.attributeOf 0xff := by
  have hquarter : ∀ quarter < 4, (0 : UInt8).toNat >>> (2 * quarter) % 4 ≠
      (0xff : UInt8).toNat >>> (2 * quarter) % 4 := by decide
  exact hquarter (a.coarseY.val / 2 % 2 * 2 + a.coarseX.val / 2 % 2) (by omega)

theorem not_same_fetchTile {dot : Nat} (hr : r ∈ p.tileFetches dot)
    (selected selected' : List LineSprite) (dataBuffer : UInt8) :
    ¬ r.purpose.Same ⟨(p.fetchTile (marked r.addr 0) dot).latch, selected, dataBuffer⟩
      ⟨(p.fetchTile (marked r.addr 0xff) dot).latch, selected', dataBuffer⟩ := by
  unfold fetchTile
  unfold tileFetches at hr
  dsimp only
  split <;> simp only [*] at hr
  · rw [purpose_of_mem hr, p.readSpace_marked hr, p.readSpace_marked hr]
    exact zero_ne_full
  · rw [purpose_of_mem hr, p.readSpace_marked hr, p.readSpace_marked hr]
    exact attributeOf_ne p.controls.v
  · rw [purpose_of_mem hr, p.readSpace_marked hr, p.readSpace_marked hr]
    exact fun h ↦ zero_ne_full h.1
  · rw [purpose_of_mem hr, p.readSpace_marked hr, p.readSpace_marked hr]
    exact fun h ↦ zero_ne_full h.2
  · exact absurd hr List.not_mem_nil
  · exact absurd hr List.not_mem_nil

theorem not_same_selectSprites (hr : r ∈ p.spriteFetches) (latch latch' : TileLatch)
    (dataBuffer : UInt8) :
    ¬ r.purpose.Same
      ⟨latch, (p.selectSprites (marked r.addr 0)).sprites.selected, dataBuffer⟩
      ⟨latch', (p.selectSprites (marked r.addr 0xff)).sprites.selected, dataBuffer⟩ := by
  obtain ⟨s, hs, hr⟩ := mem_spriteFetches.mp hr
  have hpurpose : r.purpose = .sprite := by rcases hr with rfl | rfl <;> rfl
  rw [hpurpose, selected_selectSprites, selected_selectSprites]
  intro h
  have hsame := List.map_inj_left.mp h s hs
  rcases hr with rfl | rfl
  · rw [marked_self, marked_self] at hsame
    exact zero_ne_full (congrArg LineSprite.low hsame)
  · rw [marked_self, marked_self] at hsame
    exact zero_ne_full (congrArg LineSprite.high hsame)

theorem not_same_fetchDot (hr : r ∈ p.renderFetches) :
    ¬ r.purpose.Same (p.fetchDot (marked r.addr 0)).holdings
      (p.fetchDot (marked r.addr 0xff)).holdings := by
  rw [holdings_fetchDot, holdings_fetchDot]
  rcases List.mem_append.mp hr with hr | hr
  · obtain ⟨hdot, hr⟩ := List.mem_ite_nil_right.mp hr
    rw [if_pos hdot, if_pos hdot]
    exact not_same_fetchTile hr _ _ _
  · obtain ⟨hdot, hr⟩ := List.mem_ite_nil_right.mp hr
    rw [if_pos hdot, if_pos hdot]
    exact not_same_selectSprites hr _ _ _

theorem dataBuffer_readData (p : Ppu) (fetch : UInt16 → UInt8) :
    (p.readData fetch).2.controls.dataBuffer =
      p.readSpace fetch
        (if paletteStart ≤ p.dataAddress.toNat then p.dataAddress - 0x1000 else p.dataAddress) := by
  have hadvance (q : Ppu) : q.advanceAddress.controls.dataBuffer = q.controls.dataBuffer := by
    unfold advanceAddress Controls.advance
    dsimp only
    split <;> rfl
  unfold readData
  dsimp only
  split <;> rw [hadvance]

theorem not_same_readData (hr : r ∈ p.dataFetches) {index : Fin 8} (hindex : index.val = 7) :
    ¬ r.purpose.Same (p.busRead (marked r.addr 0) index).2.holdings
      (p.busRead (marked r.addr 0xff) index).2.holdings := by
  obtain rfl : index = 7 := Fin.ext hindex
  unfold dataFetches at hr
  dsimp only at hr
  rw [← apply_ite (spaceFetches .data)] at hr
  rw [purpose_of_mem hr]
  intro h
  have hbuffer : (p.readData (marked r.addr 0)).2.controls.dataBuffer =
      (p.readData (marked r.addr 0xff)).2.controls.dataBuffer := h
  rw [dataBuffer_readData, dataBuffer_readData, p.readSpace_marked hr,
    p.readSpace_marked hr] at hbuffer
  exact zero_ne_full hbuffer

theorem not_same_act (hr : r ∈ p.fetches action) :
    ¬ r.purpose.Same (p.act (action.against (marked r.addr 0))).holdings
      (p.act (action.against (marked r.addr 0xff))).holdings := by
  cases action with
  | dot fetch =>
    obtain ⟨hrendering, hr⟩ := List.mem_ite_nil_right.mp hr
    change ¬ r.purpose.Same (p.tick _).ppu.holdings (p.tick _).ppu.holdings
    rw [holdings_tick_of_rendering hrendering, holdings_tick_of_rendering hrendering]
    exact not_same_fetchDot hr
  | read fetch index =>
    obtain ⟨hindex, hr⟩ := List.mem_ite_nil_right.mp hr
    exact not_same_readData hr hindex
  | write index value => exact absurd hr List.not_mem_nil
  | reset => exact absurd hr List.not_mem_nil

/-- The list of reads is exact. -/
theorem consults_iff (p : Ppu) (action : Action) (r : Fetch) :
    p.Consults action r ↔ r ∈ p.fetches action := by
  constructor
  · rintro ⟨f, g, hother, hne⟩
    by_contra hnone
    refine hne (same_act fun s hs ↦ hother _ fun haddr ↦ hnone ?_)
    obtain ⟨hs, hpurpose⟩ := List.mem_filter.mp hs
    have hsame : s = r := by
      obtain ⟨purpose, addr⟩ := s
      obtain rfl := of_decide_eq_true hpurpose
      obtain rfl := haddr
      rfl
    exact hsame ▸ hs
  · intro hr
    refine ⟨marked r.addr 0, marked r.addr 0xff, fun other hne ↦ ?_, not_same_act hr⟩
    rw [marked_of_ne hne, marked_of_ne hne]

/-! ## Where the reads are -/

/-- Where the reads for a purpose may be, with the scroll address in use. -/
def Purpose.Allows (v : ScrollAddress) (addr : UInt16) : Purpose → Prop
  | .tile => 0x2000 ≤ addr.toNat ∧ addr.toNat < 0x3000
  | .attributes =>
    0x23c0 + v.word / 0x400 % 4 * 0x400 ≤ addr.toNat ∧
      addr.toNat < 0x2400 + v.word / 0x400 % 4 * 0x400
  | .pattern => addr.toNat < 0x2000
  | .sprite => addr.toNat < 0x2000
  | .data => True

theorem toNat_busAddress (addr : UInt16) : (busAddress addr).toNat = addr.toNat % 0x4000 := by
  unfold busAddress
  rw [UInt16.toNat_ofNat']
  omega

end Ppu

namespace ScrollAddress

variable (a : ScrollAddress)

theorem table_word : a.word / 0x400 % 4 = a.table := by
  have hx := a.coarseX.isLt
  have hy := a.coarseY.isLt
  have hright := Bool.toNat_le a.right
  have hlower := Bool.toNat_le a.lower
  unfold word table
  omega

theorem toNat_tileAddress : a.tileAddress.toNat = 0x2000 + a.word % 0x1000 := by
  unfold tileAddress
  rw [UInt16.toNat_ofNat']
  omega

theorem toNat_attributeAddress :
    a.attributeAddress.toNat =
      0x23c0 + a.word / 0x400 % 4 * 0x400 + a.coarseY / 4 * 8 + a.coarseX / 4 := by
  have hx := a.coarseX.isLt
  have hy := a.coarseY.isLt
  unfold attributeAddress
  rw [UInt16.toNat_ofNat', table_word]
  have htable : a.table < 4 := a.table_word ▸ Nat.mod_lt _ (by decide)
  omega

end ScrollAddress

theorem TileLatch.toNat_rowAddress_lt (l : TileLatch) {table : Nat} (htable : table ≤ 0x1000)
    (line : Fin 8) {plane : Nat} (hplane : plane ≤ 8) :
    (l.rowAddress table line plane).toNat < 0x2000 := by
  have htile := l.tile.toNat_lt
  have hline := line.isLt
  unfold rowAddress
  rw [UInt16.toNat_ofNat']
  omega

/-- Both planes of a row of a sprite are in the pattern tables. -/
theorem Sprite.toNat_patternAddress_lt {s : Sprite} {line : Int} {height table : Nat}
    (hreaches : s.reaches line height = true) (hheight : height = 8 ∨ height = 16)
    (htable : table ≤ 0x1000) :
    (s.patternAddress line height table).toNat + 8 < 0x2000 := by
  have htile := s.tile.toNat_lt
  have hrow := s.patternRow_lt hreaches
  unfold patternAddress rowAddress
  rw [UInt16.toNat_ofNat']
  rcases hheight with rfl | rfl
  · rw [if_neg (by decide)]
    omega
  · have hpair : s.tile.toNat / 2 ≤ 127 := by omega
    have hside : s.tile.toNat % 2 ≤ 1 := by omega
    have hhalf : s.patternRow line 16 / 8 ≤ 1 := by omega
    have hline : s.patternRow line 16 % 8 ≤ 7 := by omega
    rw [if_pos rfl]
    generalize s.tile.toNat / 2 = pair at hpair ⊢
    generalize s.tile.toNat % 2 = side at hside ⊢
    generalize s.patternRow line 16 / 8 = half at hhalf ⊢
    generalize s.patternRow line 16 % 8 = row at hline ⊢
    omega

namespace Ppu

variable {p : Ppu} {r : Fetch} {action : Action}

/-- A read of the cartridge is below the palette, and where its purpose allows it. -/
structure Fetch.IsConfined (v : ScrollAddress) (r : Fetch) : Prop where
  below : r.addr.toNat < 0x3f00
  allowed : r.purpose.Allows v r.addr

theorem isConfined_of_mem {v : ScrollAddress} {purpose : Purpose} {addr : UInt16}
    (h : purpose.Allows v (busAddress addr)) (hr : r ∈ spaceFetches purpose addr) :
    r.IsConfined v := by
  obtain ⟨rfl, hcartridge⟩ := mem_spaceFetches.mp hr
  exact ⟨hcartridge, h⟩

theorem isConfined_tileFetches {dot : Nat} (hr : r ∈ p.tileFetches dot) :
    r.IsConfined p.controls.v := by
  have hx := p.controls.v.coarseX.isLt
  have hy := p.controls.v.coarseY.isLt
  have hpattern {plane : Nat} (hplane : plane ≤ 8) : Purpose.Allows p.controls.v
      (busAddress (p.latch.rowAddress p.controls.backgroundTable p.controls.v.fineY plane))
      .pattern := by
    unfold Purpose.Allows
    rw [toNat_busAddress]
    exact Nat.lt_of_le_of_lt (Nat.mod_le _ _)
      (p.latch.toNat_rowAddress_lt p.controls.backgroundTable_le p.controls.v.fineY hplane)
  unfold tileFetches at hr
  split at hr
  · refine isConfined_of_mem ?_ hr
    unfold Purpose.Allows
    rw [toNat_busAddress, ScrollAddress.toNat_tileAddress]
    omega
  · refine isConfined_of_mem ?_ hr
    unfold Purpose.Allows
    rw [toNat_busAddress, ScrollAddress.toNat_attributeAddress]
    omega
  · exact isConfined_of_mem (hpattern (Nat.zero_le _)) hr
  · exact isConfined_of_mem (hpattern (Nat.le_refl _)) hr
  · exact absurd hr List.not_mem_nil

theorem isConfined_spriteFetches (hr : r ∈ p.spriteFetches) : r.IsConfined p.controls.v := by
  obtain ⟨s, hs, hr⟩ := mem_spriteFetches.mp hr
  have hreaches : s.reaches p.beam.line p.controls.spriteHeight = true :=
    (List.mem_filter.mp (List.mem_of_mem_take hs)).2
  have hrow := Sprite.toNat_patternAddress_lt hreaches p.controls.spriteHeight_cases
    p.controls.spriteTable_le
  have hplane : (p.spriteAddress s + 8).toNat = (p.spriteAddress s).toNat + 8 := by
    rw [UInt16.toNat_add]
    exact Nat.mod_eq_of_lt (Nat.lt_trans hrow (by decide))
  have hlow : r.addr.toNat < 0x2000 := by
    rcases hr with rfl | rfl
    · exact Nat.lt_of_add_right_lt hrow
    · exact hplane ▸ hrow
  rcases hr with rfl | rfl
  · exact ⟨Nat.lt_trans hlow (by decide), hlow⟩
  · exact ⟨Nat.lt_trans hlow (by decide), hlow⟩

theorem isConfined (hr : r ∈ p.fetches action) : r.IsConfined p.controls.v := by
  cases action with
  | dot fetch =>
    rcases List.mem_append.mp (List.mem_ite_nil_right.mp hr).2 with hr | hr
    · exact isConfined_tileFetches (List.mem_ite_nil_right.mp hr).2
    · exact isConfined_spriteFetches (List.mem_ite_nil_right.mp hr).2
  | read fetch index =>
    have hdata := (List.mem_ite_nil_right.mp hr).2
    unfold dataFetches at hdata
    dsimp only at hdata
    split at hdata
    · exact isConfined_of_mem (show Purpose.Allows _ _ .data from trivial) hdata
    · exact isConfined_of_mem (show Purpose.Allows _ _ .data from trivial) hdata
  | write index value => exact absurd hr List.not_mem_nil
  | reset => exact absurd hr List.not_mem_nil

/-- Only an address below the palette is written. -/
theorem addr_sent_lt {w : CartridgeWrite} (hw : p.sent? action = some w) :
    w.addr.toNat < 0x3f00 := by
  cases action with
  | write index value =>
    unfold sent? busWrite at hw
    dsimp only at hw
    split at hw
    case h_8 =>
      unfold writeData at hw
      dsimp only at hw
      split at hw
      · exact absurd hw (Option.some_ne_none _).symm
      · next hcartridge =>
        obtain rfl := Option.some.inj hw
        exact Nat.lt_of_not_le hcartridge
    all_goals exact absurd hw (Option.some_ne_none _).symm
  | dot fetch => exact absurd hw (Option.some_ne_none _).symm
  | read fetch index => exact absurd hw (Option.some_ne_none _).symm
  | reset => exact absurd hw (Option.some_ne_none _).symm

/-! ## Every action of a chip -/

/-- The chip asks the cartridge for nothing beyond its bounds, whatever it has been told to do. Its
registers and colours keep their widths. What an action leaves depends on nothing but the bytes at
the addresses that are listed, and it depends on each of them in what is kept for its purpose. Each
is where its purpose allows it, and every address written is below the palette. -/
theorem addresses_confined (tv : Television) (history : List Action) :
    let p := (powerOn tv).run history
    (p.controls.v.word < 0x8000 ∧ p.controls.t.word < 0x8000 ∧ p.controls.fineX.val < 8 ∧
        ∀ i, (p.palette.cells.get i).val < 64) ∧
      ∀ action,
        (∀ f g, AgreeOn f g (p.fetches action) →
            p.act (action.against f) = p.act (action.against g)) ∧
          (∀ r, p.Consults action r ↔ r ∈ p.fetches action) ∧
          (∀ r ∈ p.fetches action, r.IsConfined p.controls.v) ∧
          ∀ w, p.sent? action = some w → w.addr.toNat < 0x3f00 := by
  intro p
  refine ⟨⟨p.controls.v.word_lt, p.controls.t.word_lt, p.controls.fineX.isLt,
    fun i ↦ (p.palette.cells.get i).isLt⟩, fun action ↦ ⟨?_, p.consults_iff action, ?_, ?_⟩⟩
  · exact fun f g ↦ act_congr
  · exact fun r ↦ isConfined
  · exact fun w ↦ addr_sent_lt

end Ppu

end Famicom
