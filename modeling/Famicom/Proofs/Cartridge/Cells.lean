import Famicom.Cartridge.Board
import Mathlib.Data.List.Nodup

/-!
# The cells of a board

To the picture chip a board shows pattern memory and nametables, and an address selects a *cell* of
either (`Board.cellOf`). Different addresses select one cell where the nametables repeat, where an
arrangement shows one table twice, and where the circuit shows one bank in two windows.

A write changes what is read at the addresses of its cell and nowhere else
(`Board.readPpu_writePpu`). It never changes which cell an address selects. So after a block of
writes an address shows the byte of the block that is found first among the writes to its cell, the
last write being looked at first (`Board.lastByte?`).
-/

namespace Famicom

/-! ## Memory -/

/-- A byte stored in pattern memory is read at every offset that is folded to its place. -/
theorem PatternMemory.read_write {m : PatternMemory} (h : m.writable = true) (offset : Nat)
    (value : UInt8) (place : Nat) :
    (m.write offset value).read place =
      if place % m.bytes.size = offset % m.bytes.size then value else m.read place := by
  obtain ⟨bytes, writable, nonempty⟩ := m
  obtain rfl : writable = true := h
  simp only [read, write, if_true, Array.size_set, Array.getElem_set, eq_comm]

/-- A byte stored in a nametable is read at every address that shares its cell. -/
theorem Vram.read_write (v : Vram) (m : Mirroring) (addr place : UInt16) (value : UInt8) :
    (v.write m addr value).read m place =
      if m.cell place = m.cell addr then value else v.read m place := by
  simp only [read, write, Vector.getElem_set, eq_comm]

/-! ## Cells -/

namespace Board

/-- A cell of the memory that a board shows to the picture chip. -/
inductive Cell where
  | pattern (place : Nat)
  | nametable (place : Nat)
  deriving DecidableEq, Repr

/-- The cell that an address selects. -/
def cellOf (b : Board) (addr : UInt16) : Cell :=
  if isPattern addr then
    .pattern (b.circuit.patternOffset b.patterns.bytes.size addr % b.patterns.bytes.size)
  else .nametable (b.mirroring.cell addr)

/-- The board after some writes by the picture chip. -/
def storeAll (b : Board) (writes : List (UInt16 × UInt8)) : Board :=
  writes.foldl (fun b w ↦ b.writePpu w.1 w.2) b

/-- The last byte of some writes that goes to the cell of an address, if any does. -/
def lastByte? (b : Board) (writes : List (UInt16 × UInt8)) (addr : UInt16) : Option UInt8 :=
  (writes.reverse.find? fun w ↦ b.cellOf w.1 == b.cellOf addr).map (·.2)

variable (b : Board) (addr : UInt16) (value : UInt8)

@[simp] theorem circuit_writePpu : (b.writePpu addr value).circuit = b.circuit := by
  unfold writePpu
  dsimp only
  split
  · rfl
  · rfl

@[simp] theorem size_writePpu :
    (b.writePpu addr value).patterns.bytes.size = b.patterns.bytes.size := by
  unfold writePpu
  dsimp only
  split
  · exact PatternMemory.size_write _ _ _
  · rfl

@[simp] theorem writable_writePpu :
    (b.writePpu addr value).patterns.writable = b.patterns.writable := by
  unfold writePpu
  dsimp only
  split
  · exact PatternMemory.writable_write _ _ _
  · rfl

/-- Writing leaves it to the circuit which cell an address selects. -/
@[simp] theorem cellOf_writePpu (place : UInt16) :
    (b.writePpu addr value).cellOf place = b.cellOf place := by
  simp only [cellOf, mirroring, circuit_writePpu, size_writePpu]

variable {b}

/-- A write changes what is read at the addresses of its cell. -/
theorem readPpu_writePpu (h : b.patterns.writable = true) (place : UInt16) :
    (b.writePpu addr value).readPpu place =
      if b.cellOf place = b.cellOf addr then value else b.readPpu place := by
  unfold writePpu cellOf readPpu mirroring
  dsimp only
  cases isPattern addr with
  | true =>
    cases isPattern place with
    | true =>
      simp only [if_true, PatternMemory.size_write, Cell.pattern.injEq]
      exact PatternMemory.read_write h _ value _
    | false => rfl
  | false =>
    cases isPattern place with
    | true => rfl
    | false =>
      simp only [Bool.false_eq_true, if_false, Vram.read_write, Cell.nametable.injEq]

/-! ## A block of writes -/

theorem lastByte?_cons (w : UInt16 × UInt8) (writes : List (UInt16 × UInt8)) :
    b.lastByte? (w :: writes) addr =
      (b.lastByte? writes addr).or (if b.cellOf w.1 = b.cellOf addr then some w.2 else none) := by
  rw [lastByte?, List.reverse_cons, List.find?_append, lastByte?, Option.map_or, List.find?_cons]
  by_cases hcell : b.cellOf w.1 = b.cellOf addr
  · rw [beq_iff_eq.mpr hcell, if_pos hcell]
    rfl
  · rw [beq_eq_false_iff_ne.mpr hcell, if_neg hcell]
    rfl

/-- After some writes an address shows the last byte that has gone to its cell. -/
theorem readPpu_storeAll (h : b.patterns.writable = true) (writes : List (UInt16 × UInt8)) :
    (b.storeAll writes).readPpu addr = (b.lastByte? writes addr).getD (b.readPpu addr) := by
  induction writes generalizing b with
  | nil => rfl
  | cons w rest ih =>
    have hwritable : (b.writePpu w.1 w.2).patterns.writable = true := by rw [writable_writePpu, h]
    have hlast : (b.writePpu w.1 w.2).lastByte? rest addr = b.lastByte? rest addr := by
      simp only [lastByte?, cellOf_writePpu]
    change ((b.writePpu w.1 w.2).storeAll rest).readPpu addr = _
    rw [ih hwritable, hlast, readPpu_writePpu _ _ h, lastByte?_cons]
    -- a later write to the cell hides this one
    cases b.lastByte? rest addr with
    | some byte => rfl
    | none =>
      rw [Option.none_or, Option.getD_none]
      by_cases hcell : b.cellOf addr = b.cellOf w.1
      · rw [if_pos hcell, if_pos hcell.symm]
        rfl
      · rw [if_neg hcell, if_neg (Ne.symm hcell)]
        rfl

theorem isSome_lastByte? {writes : List (UInt16 × UInt8)} {w : UInt16 × UInt8} (hw : w ∈ writes) :
    (b.lastByte? writes w.1).isSome = true := by
  rw [lastByte?, Option.isSome_map, List.find?_isSome]
  exact ⟨w, List.mem_reverse.mpr hw, beq_self_eq_true _⟩

/-- A write that has its cell to itself is the last one there. -/
theorem lastByte?_of_nodup {writes : List (UInt16 × UInt8)}
    (hcells : (writes.map fun w ↦ b.cellOf w.1).Nodup) {w : UInt16 × UInt8} (hw : w ∈ writes) :
    b.lastByte? writes w.1 = some w.2 := by
  cases hfound : writes.reverse.find? fun w' ↦ b.cellOf w'.1 == b.cellOf w.1 with
  | none =>
    have hsome := isSome_lastByte? (b := b) hw
    rw [lastByte?, hfound] at hsome
    exact absurd hsome Bool.false_ne_true
  | some w' =>
    have hmem := List.mem_reverse.mp (List.mem_of_find?_eq_some hfound)
    have hsame := List.find?_some hfound
    have hcell : b.cellOf w'.1 = b.cellOf w.1 := beq_iff_eq.mp hsame
    obtain rfl : w' = w := List.inj_on_of_nodup_map hcells hmem hw hcell
    rw [lastByte?, hfound]
    rfl

/-- A block read back shows at each address the last byte that has gone to its cell. -/
theorem readPpu_block (h : b.patterns.writable = true) {places : List UInt16} {bytes : List UInt8}
    (hlength : places.length = bytes.length) :
    (places.map (b.storeAll (places.zip bytes)).readPpu).map some =
      places.map (b.lastByte? (places.zip bytes)) := by
  rw [List.map_map]
  refine List.map_congr_left fun place hplace ↦ ?_
  rw [← List.map_fst_zip (Nat.le_of_eq hlength), List.mem_map] at hplace
  obtain ⟨w, hw, rfl⟩ := hplace
  obtain ⟨byte, hbyte⟩ := Option.isSome_iff_exists.mp (isSome_lastByte? (b := b) hw)
  rw [Function.comp_apply, readPpu_storeAll _ h, hbyte]
  rfl

/-- With cells of their own, the addresses show the block. -/
theorem readPpu_block_of_nodup (h : b.patterns.writable = true) {places : List UInt16}
    {bytes : List UInt8} (hlength : places.length = bytes.length)
    (hcells : (places.map b.cellOf).Nodup) :
    places.map (b.storeAll (places.zip bytes)).readPpu = bytes := by
  have hfirsts := List.map_fst_zip (Nat.le_of_eq hlength)
  have hwrites : ((places.zip bytes).map fun w ↦ b.cellOf w.1).Nodup := by
    rw [← hfirsts, List.map_map] at hcells
    exact hcells
  have hlast : places.map (b.lastByte? (places.zip bytes)) = bytes.map some :=
    calc places.map (b.lastByte? (places.zip bytes))
      _ = (places.zip bytes).map fun w ↦ b.lastByte? (places.zip bytes) w.1 := by
        rw [← Function.comp_def (b.lastByte? (places.zip bytes)) Prod.fst, ← List.map_map,
          hfirsts]
      _ = (places.zip bytes).map fun w ↦ some w.2 :=
        List.map_congr_left fun w hw ↦ lastByte?_of_nodup hwrites hw
      _ = bytes.map some := by
        rw [← Function.comp_def some Prod.snd, ← List.map_map,
          List.map_snd_zip (Nat.le_of_eq hlength.symm)]
  exact List.map_injective_iff.mpr (fun _ _ ↦ Option.some.inj)
    ((readPpu_block h hlength).trans hlast)

end Board

end Famicom
