import Famicom.Proofs.Picture.Direct
import Famicom.Proofs.Picture.Dot

/-!
# The background pipeline in step

A line of the background is a sequence of rows of tiles, and the pipeline works through it eight
dots a tile. `Ppu.Stage` says how far it has come: at step `σ` the tile `σ / 8` is being fetched,
`σ % 8` dots ago its number was, and the shift registers hold the columns from `σ - 16` on as far as
they have been loaded. Every dot of the pipeline is one step (`Stage.fetchTile`), whichever of the
eight it is.

The pipeline starts a line at step 0, on dot 321 of the line before, and has made 16 steps when the
line begins. So the registers hold the first two tiles then, and dot `x + 1` of the line sees column
`x` at the upper end of the registers, where the fine scroll looks (`Shifters.Shows.colour_eq`).
-/

namespace Famicom

/-! ## Bits of the shift registers -/

namespace Shifters

theorem testBit_shiftLeft_one (register : UInt16) {i : Nat} (hi : i < 15) :
    (register <<< 1).toNat.testBit (15 - i) = register.toNat.testBit (15 - (i + 1)) := by
  rw [UInt16.toNat_shiftLeft, Nat.testBit_mod_two_pow, show (1 : UInt16).toNat % 16 = 1 from rfl,
    Nat.testBit_shiftLeft, decide_eq_true (by omega : 15 - i < 16),
    decide_eq_true (by omega : 15 - i ≥ 1), Bool.true_and, Bool.true_and,
    show 15 - i - 1 = 15 - (i + 1) by omega]

theorem testBit_reload (register : UInt16) (low : UInt8) {j : Nat} (hj : j < 16) :
    (reload register low).toNat.testBit j =
      if j < 8 then low.toNat.testBit j else register.toNat.testBit j := by
  have hmask : ∀ j : Fin 16, (0xff00 : Nat).testBit j = decide (8 ≤ j.val) := by decide
  have hmask := hmask ⟨j, hj⟩
  unfold reload
  rw [UInt16.toNat_or, UInt16.toNat_and, Nat.testBit_or, Nat.testBit_and, UInt8.toNat_toUInt16,
    show (0xff00 : UInt16).toNat = 0xff00 from rfl, hmask]
  dsimp only
  split
  · rw [decide_eq_false (by omega), Bool.and_false, Bool.false_or]
  · have hlow : low.toNat.testBit j = false := by
      refine Nat.testBit_lt_two_pow (Nat.lt_of_lt_of_le low.toNat_lt ?_)
      exact Nat.pow_le_pow_right (by decide) (by omega : 8 ≤ j)
    rw [decide_eq_true (by omega), Bool.and_true, hlow, Bool.or_false]

/-- The register holds a stream of bits at step `σ`: the columns from `σ - 16` on, as far as they
have been loaded. -/
def Holds (register : UInt16) (stream : Nat → Bool) (σ : Nat) : Prop :=
  ∀ i, i + σ % 8 < 16 → 16 ≤ σ + i → register.toNat.testBit (15 - i) = stream (σ + i - 16)

variable {register : UInt16} {stream : Nat → Bool} {σ : Nat}

theorem holds_zero (register : UInt16) (stream : Nat → Bool) : Holds register stream 0 :=
  fun i hi hle ↦ by omega

theorem Holds.shift (h : Holds register stream σ) (hσ : (σ + 1) % 8 ≠ 0) :
    Holds (register <<< 1) stream (σ + 1) := by
  intro i hi hle
  rw [testBit_shiftLeft_one _ (by omega), h (i + 1) (by omega) (by omega),
    show σ + (i + 1) - 16 = σ + 1 + i - 16 by omega]

/-- A step that loads the lower half brings the next eight columns. -/
theorem Holds.load (h : Holds register stream σ) (hσ : (σ + 1) % 8 = 0) {low : UInt8}
    (hlow : ∀ c < 8, low.toNat.testBit (7 - c) = stream (σ - 7 + c)) :
    Holds (reload (register <<< 1) low) stream (σ + 1) := by
  intro i hi hle
  rw [testBit_reload _ _ (by omega)]
  -- the lower eight places are new, the upper eight have moved by one
  split
  · have hcolumn := hlow (i - 8) (by omega)
    rw [show 7 - (i - 8) = 15 - i by omega] at hcolumn
    rw [hcolumn, show σ - 7 + (i - 8) = σ + 1 + i - 16 by omega]
  · rw [testBit_shiftLeft_one _ (by omega), h (i + 1) (by omega) (by omega),
      show σ + (i + 1) - 16 = σ + 1 + i - 16 by omega]

/-! ## All four registers -/

/-- The registers hold the rows of a line at step `σ`. -/
structure Shows (s : Shifters) (rows : Nat → TileRow) (σ : Nat) : Prop where
  low : Holds s.low (fun q ↦ bit (rows (q / 8)).low (7 - q % 8)) σ
  high : Holds s.high (fun q ↦ bit (rows (q / 8)).high (7 - q % 8)) σ
  paletteLow : Holds s.paletteLow (fun q ↦ (rows (q / 8)).palette.testBit 0) σ
  paletteHigh : Holds s.paletteHigh (fun q ↦ (rows (q / 8)).palette.testBit 1) σ

variable {s : Shifters} {rows : Nat → TileRow}

theorem shows_zero (s : Shifters) (rows : Nat → TileRow) : s.Shows rows 0 :=
  ⟨holds_zero _ _, holds_zero _ _, holds_zero _ _, holds_zero _ _⟩

theorem Shows.shift (h : s.Shows rows σ) (hσ : (σ + 1) % 8 ≠ 0) : s.shift.Shows rows (σ + 1) :=
  ⟨h.low.shift hσ, h.high.shift hσ, h.paletteLow.shift hσ, h.paletteHigh.shift hσ⟩

theorem testBit_spread (on : Bool) {j : Nat} (hj : j < 8) : (spread on).toNat.testBit j = on := by
  have hall : ∀ on : Bool, ∀ j : Fin 8, (spread on).toNat.testBit j = on := by decide
  exact hall on ⟨j, hj⟩

/-- The latch is loaded when its row is complete. -/
theorem Shows.load (h : s.Shows rows σ) (hσ : (σ + 1) % 8 = 0) {l : TileLatch}
    (hlow : l.low = (rows (σ / 8)).low) (hhigh : l.high = (rows (σ / 8)).high)
    (hpalette : l.palette = (rows (σ / 8)).palette) :
    (s.shift.load l).Shows rows (σ + 1) := by
  have htile {c : Nat} (hc : c < 8) : (σ - 7 + c) / 8 = σ / 8 ∧ (σ - 7 + c) % 8 = c := by omega
  refine ⟨h.low.load hσ fun c hc ↦ ?_, h.high.load hσ fun c hc ↦ ?_,
    h.paletteLow.load hσ fun c hc ↦ ?_, h.paletteHigh.load hσ fun c hc ↦ ?_⟩
  · rw [(htile hc).1, (htile hc).2, hlow]
    rfl
  · rw [(htile hc).1, (htile hc).2, hhigh]
    rfl
  · rw [(htile hc).1, testBit_spread _ (by omega), hpalette]
  · rw [(htile hc).1, testBit_spread _ (by omega), hpalette]

theorem testBit_palette {n : Nat} (h : n < 4) :
    2 * (n.testBit 1).toNat + (n.testBit 0).toNat = n := by
  have hall : ∀ n : Fin 4, 2 * (n.val.testBit 1).toNat + (n.val.testBit 0).toNat = n.val := by
    decide
  exact hall ⟨n, h⟩

/-- On the dot of column `x` the fine scroll looks at the column of the line that belongs there. -/
theorem Shows.colour_eq {x : Nat} (h : s.Shows rows (x + 16)) (place : Fin 8)
    (hpalette : (rows ((x + place) / 8)).palette < 4) :
    s.colour place = (rows ((x + place) / 8)).colour ((x + place) % 8) ∧
      s.palette place = (rows ((x + place) / 8)).palette := by
  have hlook {register : UInt16} {stream : Nat → Bool} (h : Holds register stream (x + 16)) :
      look register place = (stream (x + place)).toNat := by
    have hplace := place.isLt
    rw [look, h place (by omega) (by omega), show x + 16 + place.val - 16 = x + place by omega]
  constructor
  · rw [colour, hlook h.high, hlook h.low]
    rfl
  · rw [palette, hlook h.paletteHigh, hlook h.paletteLow]
    exact testBit_palette hpalette

end Shifters

/-! ## Chips with the same setup -/

namespace Ppu

/-- What a program has set is the same in both chips. -/
structure SharesSetup (p q : Ppu) : Prop where
  controls : q.controls = { p.controls with v := q.controls.v }
  palette : q.palette = p.palette
  oam : q.sprites.oam = p.sprites.oam

theorem SharesSetup.refl (p : Ppu) : p.SharesSetup p := ⟨rfl, rfl, rfl⟩

variable {p q : Ppu} {fetch : UInt16 → UInt8}

namespace SharesSetup

variable (h : p.SharesSetup q)

include h

theorem showsBackground : q.controls.showsBackground = p.controls.showsBackground := by
  rw [h.controls]
  rfl

theorem rendering : q.controls.rendering = p.controls.rendering := by
  rw [h.controls]
  rfl

theorem backgroundTable : q.controls.backgroundTable = p.controls.backgroundTable := by
  rw [h.controls]
  rfl

theorem t : q.controls.t = p.controls.t := by rw [h.controls]

theorem readSpace (addr : UInt16) : q.readSpace fetch addr = p.readSpace fetch addr := by
  unfold Ppu.readSpace
  rw [h.palette]

theorem fetched (fetch : UInt16 → UInt8) : p.SharesSetup (q.fetched fetch) := by
  obtain ⟨v, spriteHit, spriteOverflow, selected, latch, shifters, hfetched⟩ := q.fetched_eq fetch
  rw [hfetched]
  refine ⟨?_, h.palette, h.oam⟩
  rw [h.controls]

theorem selection (fetch : UInt16 → UInt8) (y : Nat) :
    (q.sprites.load (q.sprites.evaluate (y - 1) q.controls.spriteHeight) (y - 1)
      q.controls.spriteHeight q.controls.spriteTable fetch).selected = p.selection fetch y := by
  have hsprites : q.sprites = { p.sprites with selected := q.sprites.selected } :=
    congrArg (SpriteUnit.mk · q.sprites.selected) h.oam
  rw [hsprites, h.controls]
  rfl

end SharesSetup

/-! ## Stages -/

/-- How far the pipeline has come with line `y`. -/
structure Stage (p : Ppu) (fetch : UInt16 → UInt8) (y σ : Nat) (q : Ppu) : Prop where
  v : q.controls.v = p.controls.t.move y ((σ + 1) / 8)
  tile : q.latch.tile = p.readSpace fetch (p.controls.t.move y (σ / 8)).tileAddress
  palette : 2 ≤ σ % 8 → q.latch.palette = (p.rowAt fetch y (σ / 8)).palette
  low : 4 ≤ σ % 8 → q.latch.low = (p.rowAt fetch y (σ / 8)).low
  high : 6 ≤ σ % 8 → q.latch.high = (p.rowAt fetch y (σ / 8)).high
  shifters : p.controls.showsBackground = true → q.shifters.Shows (p.rowAt fetch y) σ

variable {y σ : Nat}

/-- A step within a tile keeps what has been fetched of it and shifts the registers. -/
theorem Stage.succ (h : p.Stage fetch y σ q) {q' : Ppu} (hne : (σ + 1) % 8 ≠ 0)
    (hv : q'.controls.v = p.controls.t.move y ((σ + 1 + 1) / 8))
    (htile : q'.latch.tile = q.latch.tile)
    (hpalette : q'.latch.palette =
      if (σ + 1) % 8 = 2 then (p.rowAt fetch y (σ / 8)).palette else q.latch.palette)
    (hlow : q'.latch.low =
      if (σ + 1) % 8 = 4 then (p.rowAt fetch y (σ / 8)).low else q.latch.low)
    (hhigh : q'.latch.high =
      if (σ + 1) % 8 = 6 then (p.rowAt fetch y (σ / 8)).high else q.latch.high)
    (hshifters : p.controls.showsBackground = true → q'.shifters = q.shifters.shift) :
    p.Stage fetch y (σ + 1) q' := by
  have htiles : (σ + 1) / 8 = σ / 8 := by omega
  constructor
  case v => exact hv
  case tile => rw [htile, h.tile, htiles]
  case palette =>
    intro hle
    rw [hpalette, htiles]
    split
    · rfl
    · exact h.palette (by omega)
  case low =>
    intro hle
    rw [hlow, htiles]
    split
    · rfl
    · exact h.low (by omega)
  case high =>
    intro hle
    rw [hhigh, htiles]
    split
    · rfl
    · exact h.high (by omega)
  case shifters =>
    intro hshows
    rw [hshifters hshows]
    exact (h.shifters hshows).shift hne

/-- The step to the next tile loads the registers with the one before, and fetches the number. -/
theorem Stage.next (h : p.Stage fetch y σ q) {q' : Ppu} (hzero : (σ + 1) % 8 = 0)
    (hv : q'.controls.v = q.controls.v)
    (htile : q'.latch.tile = p.readSpace fetch q.controls.v.tileAddress)
    (hshifters : p.controls.showsBackground = true →
      q'.shifters = q.shifters.shift.load q.latch) :
    p.Stage fetch y (σ + 1) q' := by
  constructor
  case v => rw [hv, h.v, show (σ + 1 + 1) / 8 = (σ + 1) / 8 by omega]
  case tile => rw [htile, h.v]
  case shifters =>
    intro hshows
    rw [hshifters hshows]
    exact (h.shifters hshows).load hzero (h.low (by omega)) (h.high (by omega))
      (h.palette (by omega))
  -- nothing else of the new tile has been fetched yet
  all_goals
    intro hle
    omega

/-- Every dot of the pipeline is one step. -/
theorem Stage.fetchTile (h : p.Stage fetch y σ q) (hsetup : p.SharesSetup q) (dot : Nat)
    (hdot : (dot - 1) % 8 = (σ + 1) % 8) :
    p.Stage fetch y (σ + 1) (q.shift.fetchTile fetch dot) := by
  obtain ⟨shifters, hshift⟩ := q.shift_eq
  have hshifters (hshows : p.controls.showsBackground = true) : shifters = q.shifters.shift := by
    have hif := hshift
    rw [shift, if_pos (hsetup.showsBackground.trans hshows)] at hif
    exact (congrArg Ppu.shifters hif).symm
  have hv (hne : (σ + 1) % 8 ≠ 0) : q.controls.v = p.controls.t.move y (σ / 8) := by
    rw [h.v, show (σ + 1) / 8 = σ / 8 by omega]
  have hstay (hne : (σ + 1) % 8 ≠ 0) (hlast : (σ + 1) % 8 ≠ 7) :
      q.controls.v = p.controls.t.move y ((σ + 1 + 1) / 8) := by
    rw [hv hne, show (σ + 1 + 1) / 8 = σ / 8 by omega]
  have hrow : p.rowAt fetch y (σ / 8) = _ := p.tileRow_word fetch (p.controls.t.move y (σ / 8))
  have hplane (hne : (σ + 1) % 8 ≠ 0) (plane : Nat) :
      q.readSpace fetch (q.latch.rowAddress q.controls.backgroundTable q.controls.v.fineY plane) =
        p.readSpace fetch (UInt16.ofNat (p.controls.backgroundTable +
          (p.readSpace fetch (p.controls.t.move y (σ / 8)).tileAddress).toNat * 16 +
            (p.controls.t.move y (σ / 8)).fineY + plane)) := by
    rw [TileLatch.rowAddress, hsetup.readSpace, hsetup.backgroundTable, h.tile, hv hne]
  -- number, attribute and planes are fetched two dots apart, and the address moves on the last dot
  have hcases : (σ + 1) % 8 = 0 ∨ (σ + 1) % 8 = 1 ∨ (σ + 1) % 8 = 2 ∨ (σ + 1) % 8 = 3 ∨
      (σ + 1) % 8 = 4 ∨ (σ + 1) % 8 = 5 ∨ (σ + 1) % 8 = 6 ∨ (σ + 1) % 8 = 7 := by omega
  rw [hshift]
  unfold Ppu.fetchTile
  rw [hdot]
  rcases hcases with hr | hr | hr | hr | hr | hr | hr | hr <;> rw [hr]
  · exact h.next hr rfl (hsetup.readSpace _)
      fun hshows ↦ congrArg (Shifters.load · q.latch) (hshifters hshows)
  · exact h.succ (by omega) (hstay (by omega) (by omega)) rfl (by rw [hr]; rfl) (by rw [hr]; rfl)
      (by rw [hr]; rfl) hshifters
  · refine h.succ (by omega) (hstay (by omega) (by omega)) rfl ?_ (by rw [hr]; rfl)
      (by rw [hr]; rfl) hshifters
    rw [if_pos hr]
    change q.controls.v.attributeOf (q.readSpace fetch q.controls.v.attributeAddress) = _
    rw [hv (by omega), hsetup.readSpace, hrow]
  · exact h.succ (by omega) (hstay (by omega) (by omega)) rfl (by rw [hr]; rfl) (by rw [hr]; rfl)
      (by rw [hr]; rfl) hshifters
  · refine h.succ (by omega) (hstay (by omega) (by omega)) rfl (by rw [hr]; rfl) ?_
      (by rw [hr]; rfl) hshifters
    rw [if_pos hr, hrow]
    exact hplane (by omega) 0
  · exact h.succ (by omega) (hstay (by omega) (by omega)) rfl (by rw [hr]; rfl) (by rw [hr]; rfl)
      (by rw [hr]; rfl) hshifters
  · refine h.succ (by omega) (hstay (by omega) (by omega)) rfl (by rw [hr]; rfl)
      (by rw [hr]; rfl) ?_ hshifters
    rw [if_pos hr, hrow]
    exact hplane (by omega) 8
  · refine h.succ (by omega) ?_ rfl (by rw [hr]; rfl) (by rw [hr]; rfl) (by rw [hr]; rfl) hshifters
    change q.controls.v.nextTile = _
    rw [hv (by omega), show (σ + 1 + 1) / 8 = σ / 8 + 1 by omega, ScrollAddress.move_tile]

end Ppu

end Famicom
