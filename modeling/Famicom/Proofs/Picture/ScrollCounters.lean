import Famicom.Proofs.Picture.Direct

/-!
# Scroll positions as counters

The fields of a scroll address are the digits of two counters. Horizontally the column of the tile
carries into the nametable beside it. Vertically the line of the tile carries into its row, and the
row, from its thirtieth value on, into the nametable below:

```text
column  =   32 · right + coarseX                 modulo  64,
row     =  240 · lower +  8 · coarseY + fineY    modulo 480.
```

A move is one step of its counter and leaves the other one alone, so that moves add up and the two
kinds of them commute.

Rows 30 and 31 of a nametable hold its attributes and are no digits of the vertical counter. A
position that has been set there has left the picture. It counts through the 256 lines of its own
nametable instead (`ScrollAddress.tableLine`), which brings it back to the first line of the same
nametable, and from there on it counts like any other.
-/

namespace Famicom

namespace ScrollAddress

/-- The column of tiles in the two nametables side by side. -/
def column (a : ScrollAddress) : Nat := 32 * a.right.toNat + a.coarseX.val

/-- The line of the picture in the two nametables on top of each other. -/
def row (a : ScrollAddress) : Nat := 240 * a.lower.toNat + 8 * a.coarseY.val + a.fineY.val

/-- The line within the nametable, where the attributes count as two more rows of tiles. -/
def tableLine (a : ScrollAddress) : Nat := 8 * a.coarseY.val + a.fineY.val

/-- The two addresses are in one column of tiles. -/
structure SameColumn (a b : ScrollAddress) : Prop where
  coarseX : b.coarseX = a.coarseX
  right : b.right = a.right

/-- The two addresses are in one line. -/
structure SameRow (a b : ScrollAddress) : Prop where
  coarseY : b.coarseY = a.coarseY
  lower : b.lower = a.lower
  fineY : b.fineY = a.fineY

variable {a b c : ScrollAddress}

theorem SameColumn.trans (hab : a.SameColumn b) (hbc : b.SameColumn c) : a.SameColumn c :=
  ⟨hbc.coarseX.trans hab.coarseX, hbc.right.trans hab.right⟩

theorem SameRow.trans (hab : a.SameRow b) (hbc : b.SameRow c) : a.SameRow c :=
  ⟨hbc.coarseY.trans hab.coarseY, hbc.lower.trans hab.lower, hbc.fineY.trans hab.fineY⟩

theorem column_lt (a : ScrollAddress) : a.column < 64 := by
  have hx := a.coarseX.isLt
  have hright := Bool.toNat_le a.right
  rw [column]
  omega

theorem row_lt (h : a.coarseY.val ≤ 29) : a.row < 480 := by
  have hline := a.fineY.isLt
  have hlower := Bool.toNat_le a.lower
  rw [row]
  omega

/-! ## One move -/

theorem toNat_not (b : Bool) : (!b).toNat = 1 - b.toNat := by cases b <;> rfl

theorem sameRow_nextTile (a : ScrollAddress) : a.SameRow a.nextTile := by
  unfold nextTile
  split <;> exact ⟨rfl, rfl, rfl⟩

theorem sameColumn_nextLine (a : ScrollAddress) : a.SameColumn a.nextLine := by
  unfold nextLine
  split
  · split <;> exact ⟨rfl, rfl⟩
  · exact ⟨rfl, rfl⟩

theorem column_nextTile (a : ScrollAddress) : a.nextTile.column = (a.column + 1) % 64 := by
  have hx := a.coarseX.isLt
  have hright := Bool.toNat_le a.right
  unfold nextTile column
  split <;> simp only [val_low5, toNat_not] <;> omega

theorem row_nextLine (h : a.coarseY.val ≤ 29) :
    a.nextLine.row = (a.row + 1) % 480 ∧ a.nextLine.coarseY.val ≤ 29 := by
  have hline := a.fineY.isLt
  have hlower := Bool.toNat_le a.lower
  unfold nextLine row
  split
  · split <;> simp only [val_low5, val_low3, toNat_not] <;> omega
  · simp only [val_low3]
    omega

/-- Among the attributes the nametable stays, also where the line goes back to its first. -/
theorem tableLine_nextLine (h : 30 ≤ a.coarseY.val) :
    a.nextLine.tableLine = (a.tableLine + 1) % 256 ∧ a.nextLine.lower = a.lower := by
  have hy := a.coarseY.isLt
  have hline := a.fineY.isLt
  unfold nextLine tableLine
  split
  · rw [if_neg (by omega)]
    simp only [val_low5, val_low3, and_true]
    omega
  · simp only [val_low3, and_true]
    omega

/-- A move to the right looks at the column alone and changes it alone. -/
theorem nextTile_eq_withColumnOf (h : a.SameColumn b) : b.nextTile = b.withColumnOf a.nextTile := by
  unfold nextTile withColumnOf
  rw [h.coarseX, h.right]
  split <;> rfl

theorem commute_moves : Function.Commute nextTile nextLine := by
  intro a
  calc
    a.nextLine.nextTile = a.nextLine.withColumnOf a.nextTile :=
      nextTile_eq_withColumnOf (sameColumn_nextLine a)
    _ = (a.withColumnOf a.nextTile).nextLine := withColumnOf_nextLine a a.nextTile
    _ = a.nextTile.nextLine := by rw [← nextTile_eq_withColumnOf ⟨rfl, rfl⟩]

/-! ## Many moves -/

theorem column_iterate (a : ScrollAddress) (n : Nat) :
    (nextTile^[n] a).column = (a.column + n) % 64 ∧ a.SameRow (nextTile^[n] a) := by
  induction n with
  | zero => exact ⟨(Nat.mod_eq_of_lt a.column_lt).symm, rfl, rfl, rfl⟩
  | succ n ih =>
    obtain ⟨hcolumn, hrow⟩ := ih
    rw [Function.iterate_succ_apply']
    refine ⟨?_, hrow.trans (sameRow_nextTile _)⟩
    rw [column_nextTile, hcolumn, Nat.mod_add_mod, Nat.add_assoc]

theorem sameColumn_iterate (a : ScrollAddress) (n : Nat) : a.SameColumn (nextLine^[n] a) := by
  induction n with
  | zero => exact ⟨rfl, rfl⟩
  | succ n ih =>
    rw [Function.iterate_succ_apply']
    exact ih.trans (sameColumn_nextLine _)

/-- On the picture the line counts on, and it stays on the picture. -/
theorem row_iterate (h : a.coarseY.val ≤ 29) (n : Nat) :
    (nextLine^[n] a).row = (a.row + n) % 480 ∧ (nextLine^[n] a).coarseY.val ≤ 29 := by
  induction n with
  | zero => exact ⟨(Nat.mod_eq_of_lt (row_lt h)).symm, h⟩
  | succ n ih =>
    obtain ⟨hrow, hpicture⟩ := ih
    obtain ⟨hnext, hstays⟩ := row_nextLine hpicture
    rw [Function.iterate_succ_apply']
    refine ⟨?_, hstays⟩
    rw [hnext, hrow, Nat.mod_add_mod, Nat.add_assoc]

/-- Among the attributes the line counts on to the end of the nametable. -/
theorem tableLine_iterate (h : 30 ≤ a.coarseY.val) {n : Nat} (hn : n ≤ 256 - a.tableLine) :
    (nextLine^[n] a).tableLine = (a.tableLine + n) % 256 ∧ (nextLine^[n] a).lower = a.lower := by
  have hlt : a.tableLine < 256 := by
    have hy := a.coarseY.isLt
    have hline := a.fineY.isLt
    rw [tableLine]
    omega
  induction n with
  | zero => exact ⟨(Nat.mod_eq_of_lt hlt).symm, rfl⟩
  | succ n ih =>
    obtain ⟨hcount, hlower⟩ := ih (Nat.le_of_succ_le hn)
    -- before the last of these lines the position is still among the attributes
    have hattributes : 30 ≤ (nextLine^[n] a).coarseY.val := by
      have hline := (nextLine^[n] a).fineY.isLt
      have hstart : 8 * 30 ≤ a.tableLine :=
        Nat.le_trans (Nat.mul_le_mul_left 8 h) (Nat.le_add_right _ _)
      rw [tableLine] at hcount
      omega
    obtain ⟨hnext, hsame⟩ := tableLine_nextLine hattributes
    rw [Function.iterate_succ_apply']
    refine ⟨?_, hsame.trans hlower⟩
    rw [hnext, hcount, Nat.mod_add_mod, Nat.add_assoc]

/-- The two moves are steps of two counters that have nothing to do with each other. A position on
the picture counts its lines modulo 480 and stays on the picture; every position counts its columns
modulo 64. A position among the attributes counts through the last rows of its nametable and comes
back to the first line of the same nametable. No sequence of moves leaves fifteen bits. -/
theorem moves_count (a : ScrollAddress) (n k : Nat) :
    (a.coarseY.val ≤ 29 →
      (nextLine^[n] a).row = (a.row + n) % 480 ∧ (nextLine^[n] a).coarseY.val ≤ 29) ∧
    a.SameColumn (nextLine^[n] a) ∧
    (nextTile^[k] a).column = (a.column + k) % 64 ∧ a.SameRow (nextTile^[k] a) ∧
    a.nextLine.nextTile = a.nextTile.nextLine ∧
    a.move n k = nextLine^[n] (nextTile^[k] a) ∧
    (30 ≤ a.coarseY.val → n ≤ 256 - a.tableLine →
      (nextLine^[n] a).tableLine = (a.tableLine + n) % 256 ∧
        (nextLine^[n] a).lower = a.lower) ∧
    (a.move n k).word < 0x8000 :=
  ⟨fun h ↦ row_iterate h n, a.sameColumn_iterate n, (a.column_iterate k).1, (a.column_iterate k).2,
    commute_moves a, commute_moves.iterate_iterate k n a, fun h ↦ tableLine_iterate h,
    word_lt _⟩

/-- The last line of the picture is followed by its first, and after the sixteen lines of its
attributes the lower nametable starts again. -/
theorem moves_count_wrapping :
    let last : ScrollAddress := ⟨low5 31, low5 29, true, true, low3 7⟩
    let attributes : ScrollAddress := ⟨low5 31, low5 30, true, true, low3 0⟩
    (last.coarseY.val ≤ 29 ∧ last.row = 479 ∧ (nextLine^[1] last).row = (479 + 1) % 480) ∧
      30 ≤ attributes.coarseY.val ∧ 16 ≤ 256 - attributes.tableLine ∧
      (nextLine^[16] attributes).tableLine = (240 + 16) % 256 ∧
      (nextLine^[16] attributes).lower = true := by
  intro last attributes
  obtain ⟨hpicture, -⟩ := moves_count last 1 0
  obtain ⟨-, -, -, -, -, -, hattributes, -⟩ := moves_count attributes 16 0
  obtain ⟨hline, hlower⟩ := hattributes (by decide) (by decide)
  exact ⟨⟨by decide, rfl, (hpicture (by decide)).1⟩, by decide, by decide, hline, hlower⟩

end ScrollAddress

end Famicom
