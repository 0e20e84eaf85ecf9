import Mathlib.Data.List.FinRange
import Famicom.Picture.Sprite

/-!
# The sprites of one line

What a line shows of the sprites is told here by the bytes of sprite memory alone. Entry `i` takes
four of them, `4 * i` and up: line, tile, attributes and column. On the line after `line` the entry
shows its row

```text
r = line - Y,      or height - 1 - r where it is flipped top to bottom,
```

if `r` is one of its rows at all, and a column of the screen shows the column `x - X` of that row,
or `7 - (x - X)` where the entry is flipped left to right. The first eight entries that have a row
on the line are held for it, and of those that are opaque in a column the first one is seen
(`SpriteUnit.select_correct`).
-/

namespace Famicom

theorem bit_and (a b : UInt8) (k : Nat) : bit (a &&& b) k = (bit a k && bit b k) := by
  rw [bit, UInt8.toNat_and, Nat.testBit_and]
  rfl

/-! ## Rows of a tile -/

/-- A row of eight pixels of a tile. -/
structure TileRow where
  low : UInt8
  high : UInt8
  palette : Nat
  deriving DecidableEq, Repr

namespace TileRow

variable (r : TileRow)

/-- The colour of a column, counted from the left. -/
def colour (column : Nat) : Nat :=
  2 * (bit r.high (7 - column)).toNat + (bit r.low (7 - column)).toNat

theorem colour_lt (column : Nat) : r.colour column < 4 := by
  have hhigh := Bool.toNat_le (bit r.high (7 - column))
  have hlow := Bool.toNat_le (bit r.low (7 - column))
  unfold colour
  omega

end TileRow

/-- A selected sprite at a column of the screen, told by the columns of its row. -/
theorem LineSprite.pixel?_eq (s : Sprite) (low high : UInt8) (x : Nat) :
    (LineSprite.mk s low high).pixel? x =
      if s.x.toNat ≤ x ∧ x < s.x.toNat + 8 then
        let column := x - s.x.toNat
        let colour :=
          (TileRow.mk low high s.palette).colour (if s.isFlippedX then 7 - column else column)
        if colour = 0 then none else some ⟨colour, s.palette, s.isBehind, s.index == 0⟩
      else none := by
  unfold LineSprite.pixel?
  dsimp only
  by_cases hinside : s.x.toNat ≤ x ∧ x < s.x.toNat + 8
  · -- bits are counted from the right, as are the columns of a flipped sprite
    have hplace : 7 - (if s.isFlippedX then 7 - (x - s.x.toNat) else x - s.x.toNat) =
        if s.isFlippedX then x - s.x.toNat else 7 - (x - s.x.toNat) := by
      split <;> omega
    rw [if_pos ⟨hinside.1, by omega⟩, if_pos hinside, TileRow.colour, hplace]
  · rw [if_neg hinside, if_neg fun h ↦ hinside ⟨h.1, by omega⟩]

namespace SpriteUnit

/-! ## Entries of sprite memory -/

section Entry

variable (u : SpriteUnit) (i : Fin 64)

/-- The byte number `k` of an entry. -/
def entryByte (k : Nat) : UInt8 := u.byte (UInt8.ofNat (4 * i.val + k))

theorem entryByte_eq {k : Nat} (h : k < 4) : u.entryByte i k = u.oam[4 * i.val + k] := by
  have hsmall : (UInt8.ofNat (4 * i.val + k)).toNat = 4 * i.val + k := by
    rw [UInt8.toNat_ofNat']
    omega
  simp only [entryByte, byte, hsmall]

theorem y_sprite : (u.sprite i).y = u.entryByte i 0 :=
  (u.entryByte_eq i (by decide : 0 < 4)).symm

theorem tile_sprite : (u.sprite i).tile = u.entryByte i 1 :=
  (u.entryByte_eq i (by decide : 1 < 4)).symm

theorem x_sprite : (u.sprite i).x = u.entryByte i 3 :=
  (u.entryByte_eq i (by decide : 3 < 4)).symm

/-- The attributes of an entry are kept without the bits that do not exist. -/
theorem attributes_sprite :
    (u.sprite i).attributes = u.entryByte i 2 &&& spriteAttributeMask :=
  congrArg (· &&& spriteAttributeMask) (u.entryByte_eq i (by decide)).symm

theorem isBehind_sprite : (u.sprite i).isBehind = bit (u.entryByte i 2) 5 := by
  rw [Sprite.isBehind, attributes_sprite, bit_and]
  exact Bool.and_true _

theorem isFlippedX_sprite : (u.sprite i).isFlippedX = bit (u.entryByte i 2) 6 := by
  rw [Sprite.isFlippedX, attributes_sprite, bit_and]
  exact Bool.and_true _

theorem isFlippedY_sprite : (u.sprite i).isFlippedY = bit (u.entryByte i 2) 7 := by
  rw [Sprite.isFlippedY, attributes_sprite, bit_and]
  exact Bool.and_true _

theorem palette_sprite : (u.sprite i).palette = (u.entryByte i 2).toNat % 4 := by
  have hmask : ∀ a < 256, (a &&& 0xe3) % 4 = a % 4 := by decide +kernel
  rw [Sprite.palette, attributes_sprite, UInt8.toNat_and]
  exact hmask _ (UInt8.toNat_lt _)

end Entry

/-! ## The line as sprite memory tells it -/

section Line

variable (u : SpriteUnit) (line : Int) (tall : Bool) (table : Nat) (fetch : UInt16 → UInt8)
variable (i : Fin 64)

/-- The rows of a sprite. -/
def height (tall : Bool) : Nat := if tall then 16 else 8

/-- The entry has a row on the line after `line`. -/
def hasRow : Bool :=
  decide (0 ≤ line - (u.entryByte i 0).toNat ∧ line - (u.entryByte i 0).toNat < height tall)

/-- The entries that have a row on the line after `line`, in the order of sprite memory. -/
def entriesOn : List (Fin 64) := (List.finRange 64).filter (u.hasRow line tall)

/-- The entries that the line after `line` holds. -/
def held : List (Fin 64) := (u.entriesOn line tall).take 8

/-- The row of its tiles that an entry shows, counted from the upper tile's first. -/
def entryRow : Nat :=
  let r := (line - (u.entryByte i 0).toNat).toNat
  if bit (u.entryByte i 2) 7 then height tall - 1 - r else r

/-- Where the lower plane of that row is. Of the two tiles of a tall sprite the upper one has an
even number, and the bit this leaves over chooses the bank of both. -/
def entryAddress : Nat :=
  let tile := (u.entryByte i 1).toNat
  let row := u.entryRow line tall i
  if tall then
    if row < 8 then tile % 2 * 0x1000 + 16 * (tile &&& 254) + row
    else tile % 2 * 0x1000 + 16 * ((tile &&& 254) + 1) + (row - 8)
  else table + 16 * tile + row

/-- The colour of an entry at one of its columns, zero where it is transparent. -/
def texel (column : Nat) : Nat :=
  let addr := u.entryAddress line tall table i
  let row : TileRow :=
    ⟨fetch (UInt16.ofNat addr), fetch (UInt16.ofNat (addr + 8)), (u.entryByte i 2).toNat % 4⟩
  row.colour (if bit (u.entryByte i 2) 6 then 7 - column else column)

/-- The colour of an entry at a column of the screen, zero where it is transparent or not there. -/
def texelAt (x : Nat) : Nat :=
  if (u.entryByte i 3).toNat ≤ x ∧ x < (u.entryByte i 3).toNat + 8 then
    u.texel line tall table fetch i (x - (u.entryByte i 3).toNat)
  else 0

/-- The pixel of an entry where it is opaque. -/
def entryPixel (x : Nat) : SpritePixel where
  colour := u.texelAt line tall table fetch i x
  palette := (u.entryByte i 2).toNat % 4
  behind := bit (u.entryByte i 2) 5
  first := i.val == 0

/-- The pixel of an entry at a column of the screen, if it is opaque there. -/
def entryPixel? (x : Nat) : Option SpritePixel :=
  if u.texelAt line tall table fetch i x = 0 then none
  else some (u.entryPixel line tall table fetch i x)

theorem entryPixel?_eq_none_iff (x : Nat) :
    u.entryPixel? line tall table fetch i x = none ↔ u.texelAt line tall table fetch i x = 0 := by
  rw [entryPixel?]
  split
  case isTrue h => exact iff_of_true rfl h
  case isFalse h => exact iff_of_false (Option.some_ne_none _) h

theorem entryPixel?_eq_some_iff (x : Nat) (pixel : SpritePixel) :
    u.entryPixel? line tall table fetch i x = some pixel ↔
      u.texelAt line tall table fetch i x ≠ 0 ∧
        pixel = u.entryPixel line tall table fetch i x := by
  rw [entryPixel?]
  split
  case isTrue h => exact iff_of_false (Option.some_ne_none _).symm fun hseen ↦ hseen.1 h
  case isFalse h =>
    rw [Option.some_inj, eq_comm]
    exact (and_iff_right h).symm

theorem texelAt_lt (x : Nat) : u.texelAt line tall table fetch i x < 4 := by
  unfold texelAt
  split
  · exact TileRow.colour_lt _ _
  · decide

/-- An entry's pixel has a colour of its palette other than the first. -/
theorem range_entryPixel? {x : Nat} {pixel : SpritePixel}
    (h : u.entryPixel? line tall table fetch i x = some pixel) :
    0 < pixel.colour ∧ pixel.colour < 4 ∧ pixel.palette < 4 := by
  obtain ⟨hseen, rfl⟩ := (u.entryPixel?_eq_some_iff line tall table fetch i x pixel).mp h
  exact ⟨Nat.pos_of_ne_zero hseen, u.texelAt_lt line tall table fetch i x,
    Nat.mod_lt _ (by decide)⟩

/-- The unit with the sprites of the line after `line` selected and their patterns fetched. -/
def select : SpriteUnit := u.load (u.evaluate line (height tall)) line (height tall) table fetch

/-! ## The selection holds those entries -/

theorem reaches_sprite : (u.sprite i).reaches line (height tall) = u.hasRow line tall i := by
  rw [Sprite.reaches, Sprite.row, y_sprite, hasRow, Bool.decide_and]

theorem reaching_eq : u.reaching line (height tall) = (u.entriesOn line tall).map u.sprite := by
  rw [reaching, List.filter_map, entriesOn]
  exact congrArg _ (List.filter_congr fun i _ ↦ u.reaches_sprite line tall i)

theorem shown_eq : (u.evaluate line (height tall)).shown = (u.held line tall).map u.sprite := by
  rw [held, List.map_take, ← reaching_eq]
  rfl

theorem overflow_eq :
    (u.evaluate line (height tall)).overflow = decide (8 < (u.entriesOn line tall).length) := by
  rw [evaluate, reaching_eq, List.length_map]
  rfl

theorem pairwise_held : (u.held line tall).Pairwise (· < ·) :=
  ((List.pairwise_lt_finRange 64).filter _).sublist (List.take_sublist _ _)

/-! ## Each of them shows its row -/

theorem patternRow_sprite :
    (u.sprite i).patternRow line (height tall) = u.entryRow line tall i := by
  rw [Sprite.patternRow, Sprite.row, isFlippedY_sprite, y_sprite, entryRow]

variable {u line tall i}

theorem entryRow_lt (h : u.hasRow line tall i = true) : u.entryRow line tall i < height tall := by
  rw [hasRow, decide_eq_true_iff] at h
  rw [entryRow]
  split <;> omega

theorem rowAddress_sprite (h : u.hasRow line tall i = true) :
    (u.sprite i).rowAddress (height tall) table (u.entryRow line tall i) =
      u.entryAddress line tall table i := by
  have hrow := entryRow_lt h
  have heven : ∀ tile < 256, tile &&& 254 = tile / 2 * 2 := by decide +kernel
  rw [Sprite.rowAddress, entryAddress, heven _ (UInt8.toNat_lt _), tile_sprite]
  cases tall with
  | false =>
    rw [if_neg (by decide), if_neg Bool.false_ne_true, Nat.mul_comm 16]
  | true =>
    have hsixteen : height true = 16 := rfl
    rw [hsixteen] at hrow ⊢
    rw [if_pos rfl, if_pos rfl]
    split <;> omega

/-- The pixels of a selected sprite are those of its entry. -/
theorem pixel?_sprite (h : u.hasRow line tall i = true) (x : Nat) :
    (LineSprite.mk (u.sprite i) (fetch ((u.sprite i).patternAddress line (height tall) table))
        (fetch ((u.sprite i).patternAddress line (height tall) table + 8))).pixel? x =
      u.entryPixel? line tall table fetch i x := by
  have haddr : (u.sprite i).patternAddress line (height tall) table =
      UInt16.ofNat (u.entryAddress line tall table i) := by
    rw [Sprite.patternAddress, patternRow_sprite, rowAddress_sprite table h]
  have hnext : UInt16.ofNat (u.entryAddress line tall table i) + 8 =
      UInt16.ofNat (u.entryAddress line tall table i + 8) := (UInt16.ofNat_add _ 8).symm
  rw [LineSprite.pixel?_eq, haddr, hnext, x_sprite, isFlippedX_sprite, palette_sprite,
    isBehind_sprite, entryPixel?, entryPixel, texelAt]
  by_cases hinside : (u.entryByte i 3).toNat ≤ x ∧ x < (u.entryByte i 3).toNat + 8
  · rw [if_pos hinside, if_pos hinside]
    rfl
  · rw [if_neg hinside, if_neg hinside, if_pos rfl]

/-! ## What the line shows -/

/-- In a list that goes up, the first element with an answer is the least one that has. -/
theorem findSome?_eq_some_iff_of_pairwise {α β : Type} [Preorder α] {l : List α}
    (h : l.Pairwise (· < ·)) {f : α → Option β} {b : β} :
    l.findSome? f = some b ↔ ∃ a ∈ l, f a = some b ∧ ∀ c ∈ l, c < a → f c = none := by
  induction l with
  | nil =>
    exact iff_of_false (Option.some_ne_none _).symm fun ⟨_, hmem, _⟩ ↦ List.not_mem_nil hmem
  | cons a l ih =>
    obtain ⟨hfirst, hrest⟩ := List.pairwise_cons.mp h
    rw [List.findSome?_cons]
    cases ha : f a with
    | some value =>
      constructor
      · intro hvalue
        refine ⟨a, List.mem_cons_self, ha.trans hvalue, fun c hc hlt ↦ ?_⟩
        rcases List.mem_cons.mp hc with rfl | hc
        · exact absurd hlt (lt_irrefl _)
        · exact absurd hlt (hfirst c hc).asymm
      · rintro ⟨c, hc, hvalue, hbefore⟩
        rcases List.mem_cons.mp hc with rfl | hc
        · exact ha.symm.trans hvalue
        · exact absurd (ha.symm.trans (hbefore a List.mem_cons_self (hfirst c hc)))
            (Option.some_ne_none _)
    | none =>
      rw [ih hrest]
      constructor
      · rintro ⟨c, hc, hvalue, hbefore⟩
        refine ⟨c, List.mem_cons_of_mem _ hc, hvalue, fun d hd hlt ↦ ?_⟩
        rcases List.mem_cons.mp hd with rfl | hd
        · exact ha
        · exact hbefore d hd hlt
      · rintro ⟨c, hc, hvalue, hbefore⟩
        rcases List.mem_cons.mp hc with rfl | hc
        · exact absurd (hvalue.symm.trans ha) (Option.some_ne_none _)
        · exact ⟨c, hc, hvalue, fun d hd ↦ hbefore d (List.mem_cons_of_mem _ hd)⟩

variable (u line tall)

/-- The sprites selected are the entries held, each with its row. -/
theorem selected_select :
    (u.select line tall table fetch).selected = (u.held line tall).map fun i ↦
      ⟨u.sprite i, fetch ((u.sprite i).patternAddress line (height tall) table),
        fetch ((u.sprite i).patternAddress line (height tall) table + 8)⟩ := by
  rw [select, load, shown_eq, List.map_map]
  rfl

theorem pixel?_select (x : Nat) :
    (u.select line tall table fetch).pixel? x =
      (u.held line tall).findSome? (u.entryPixel? line tall table fetch · x) := by
  have hheld : ∀ i ∈ u.held line tall, u.hasRow line tall i = true := fun i hi ↦
    (List.mem_filter.mp (List.mem_of_mem_take hi)).2
  rw [pixel?, selected_select, List.findSome?_map]
  -- an entry without a row has an address that means nothing, so membership is carried along
  generalize u.held line tall = entries at hheld
  induction entries with
  | nil => rfl
  | cons i entries ih =>
    obtain ⟨hfirst, hrest⟩ := List.forall_mem_cons.mp hheld
    rw [List.findSome?_cons, List.findSome?_cons, ih hrest, Function.comp_apply,
      pixel?_sprite table fetch hfirst]

/-- **The sprites of a line.** The line holds the first eight of the entries that have a row on it,
or all of them if there are no more, and the overflow is reported if there are. Only the first entry
of sprite memory is marked. In each column the first of the held entries that is opaque there is
seen, and nothing where all of them are transparent. -/
theorem select_correct :
    (u.select line tall table fetch).selected.map (·.sprite) = (u.held line tall).map u.sprite ∧
      (u.held line tall).length = min 8 (u.entriesOn line tall).length ∧
      ((u.evaluate line (height tall)).overflow = true ↔ 8 < (u.entriesOn line tall).length) ∧
      (u.select line tall table fetch).selected.map (·.sprite.index == 0) =
        (u.held line tall).map (·.val == 0) ∧
      ∀ x,
        ((u.select line tall table fetch).pixel? x = none ↔
          ∀ i ∈ u.held line tall, u.texelAt line tall table fetch i x = 0) ∧
        ∀ pixel, (u.select line tall table fetch).pixel? x = some pixel ↔
          ∃ i ∈ u.held line tall,
            u.texelAt line tall table fetch i x ≠ 0 ∧
            (∀ j ∈ u.held line tall, j < i → u.texelAt line tall table fetch j x = 0) ∧
            pixel = u.entryPixel line tall table fetch i x := by
  refine ⟨?sprites, List.length_take, ?overflow, ?marks, fun x ↦ ⟨?clear, fun pixel ↦ ?seen⟩⟩
  case sprites =>
    rw [selected_select, List.map_map]
    rfl
  case overflow => rw [overflow_eq, decide_eq_true_iff]
  case marks =>
    rw [selected_select, List.map_map]
    rfl
  case clear =>
    rw [pixel?_select, List.findSome?_eq_none_iff]
    exact forall₂_congr fun i _ ↦ u.entryPixel?_eq_none_iff line tall table fetch i x
  case seen =>
    rw [pixel?_select, findSome?_eq_some_iff_of_pairwise (u.pairwise_held line tall)]
    refine exists_congr fun i ↦ and_congr_right fun _ ↦ ?_
    rw [entryPixel?_eq_some_iff]
    simp only [entryPixel?_eq_none_iff]
    exact and_right_comm.trans and_assoc

end Line

end SpriteUnit

end Famicom
