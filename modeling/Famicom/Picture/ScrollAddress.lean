import Famicom.Word

/-!
# Scroll addresses

The picture chip addresses its memory with fifteen bits that also hold the scroll position: the
column and row of a tile, the nametable it is in, and the line within the tile,

```text
yyy NN YYYYY XXXXX
```

A `ScrollAddress` is these fields, so that moving through the picture is arithmetic on a field and
never leaves fifteen bits; `word` and `ofWord` pass to the number and back.
-/

namespace Famicom

/-- A position in the four nametables, by tile and line. -/
structure ScrollAddress where
  /-- The column of the tile. -/
  coarseX : Fin 32
  /-- The row of the tile. Rows 30 and 31 hold the attributes. -/
  coarseY : Fin 32
  /-- The right-hand nametables. -/
  right : Bool
  /-- The lower nametables. -/
  lower : Bool
  /-- The line within the tile. -/
  fineY : Fin 8
  deriving DecidableEq, Repr

namespace ScrollAddress

/-- The first line of the first tile. -/
def origin : ScrollAddress := ⟨low5 0, low5 0, false, false, low3 0⟩

/-- The nametable, in reading order. -/
def table (a : ScrollAddress) : Nat := 2 * a.lower.toNat + a.right.toNat

/-- The fifteen bits as a number. -/
def word (a : ScrollAddress) : Nat :=
  a.fineY * 0x1000 + a.table * 0x400 + a.coarseY * 0x20 + a.coarseX

/-- The fields of a number, of which bits above the fifteenth are lost. -/
def ofWord (n : Nat) : ScrollAddress where
  coarseX := low5 n
  coarseY := low5 (n / 0x20)
  right := n / 0x400 % 2 = 1
  lower := n / 0x800 % 2 = 1
  fineY := low3 (n / 0x1000)

theorem word_lt (a : ScrollAddress) : a.word < 0x8000 := by
  have hx := a.coarseX.isLt
  have hy := a.coarseY.isLt
  have hf := a.fineY.isLt
  have hright : a.right.toNat ≤ 1 := Bool.toNat_le a.right
  have hlower : a.lower.toNat ≤ 1 := Bool.toNat_le a.lower
  simp only [word, table]
  omega

@[simp] theorem word_ofWord (n : Nat) : (ofWord n).word = n % 0x8000 := by
  have htable : (ofWord n).table = n / 0x400 % 4 := by
    simp only [table, ofWord]
    rcases Nat.mod_two_eq_zero_or_one (n / 0x400) with h | h <;>
      rcases Nat.mod_two_eq_zero_or_one (n / 0x800) with h' | h' <;>
      simp only [h, h', Nat.zero_ne_one, decide_true, decide_false, Bool.toNat_true,
        Bool.toNat_false] <;>
      omega
  simp only [word, htable]
  simp only [ofWord, val_low3, val_low5]
  omega

@[simp] theorem ofWord_word (a : ScrollAddress) : ofWord a.word = a := by
  obtain ⟨coarseX, coarseY, right, lower, fineY⟩ := a
  have hx := coarseX.isLt
  have hy := coarseY.isLt
  have hf := fineY.isLt
  have hright : right.toNat ≤ 1 := Bool.toNat_le right
  have hlower : lower.toNat ≤ 1 := Bool.toNat_le lower
  simp only [ofWord, word, table, mk.injEq]
  refine ⟨Fin.ext ?_, Fin.ext ?_, ?_, ?_, Fin.ext ?_⟩
  · rw [val_low5]
    omega
  · rw [val_low5]
    omega
  · cases right
    · exact decide_eq_false (by simp only [Bool.toNat_false]; omega)
    · exact decide_eq_true (by simp only [Bool.toNat_true]; omega)
  · cases lower
    · exact decide_eq_false (by simp only [Bool.toNat_false]; omega)
    · exact decide_eq_true (by simp only [Bool.toNat_true]; omega)
  · rw [val_low3]
    omega

/-! ## Moving through the picture -/

/-- One tile to the right, from the last column on into the neighbouring nametable. -/
def nextTile (a : ScrollAddress) : ScrollAddress :=
  if a.coarseX.val = 31 then { a with coarseX := low5 0, right := !a.right }
  else { a with coarseX := low5 (a.coarseX.val + 1) }

/-- One line down. The rows of tiles end at row 29, below which lies the other nametable; a
position that has been set among the attributes runs through row 31 and stays in its nametable. -/
def nextLine (a : ScrollAddress) : ScrollAddress :=
  if a.fineY.val = 7 then
    if a.coarseY.val = 29 then { a with fineY := low3 0, coarseY := low5 0, lower := !a.lower }
    else { a with fineY := low3 0, coarseY := low5 (a.coarseY.val + 1) }
  else { a with fineY := low3 (a.fineY.val + 1) }

/-- The address `distance` further on, within fifteen bits. -/
def step (a : ScrollAddress) (distance : Nat) : ScrollAddress := ofWord (a.word + distance)

/-- Takes the column and the horizontal nametable from another address. -/
def withColumnOf (a source : ScrollAddress) : ScrollAddress :=
  { a with coarseX := source.coarseX, right := source.right }

/-- Takes the row, the line and the vertical nametable from another address. -/
def withRowOf (a source : ScrollAddress) : ScrollAddress :=
  { a with coarseY := source.coarseY, lower := source.lower, fineY := source.fineY }

/-! ## What to fetch there -/

/-- Where the number of the tile is kept. -/
def tileAddress (a : ScrollAddress) : UInt16 := UInt16.ofNat (0x2000 + a.word % 0x1000)

/-- Where the palette of the surrounding four by four tiles is kept. -/
def attributeAddress (a : ScrollAddress) : UInt16 :=
  UInt16.ofNat (0x23c0 + a.table * 0x400 + a.coarseY / 4 * 8 + a.coarseX / 4)

/-- The two bits of an attribute byte that belong to this tile's quarter. -/
def attributeOf (a : ScrollAddress) (byte : UInt8) : Nat :=
  let quarter := a.coarseY.val / 2 % 2 * 2 + a.coarseX.val / 2 % 2
  byte.toNat >>> (2 * quarter) % 4

end ScrollAddress

end Famicom
