/-!
# Nametable mirroring

The picture chip addresses four nametables of 1 KiB, but a console has memory for two of them. The
cartridge decides which table shows which memory: its *mirroring*. Boards that bring memory for the
missing two leave all four distinct. A `Vram` has room for four tables, of which every other
arrangement uses the first two.
-/

namespace Famicom

/-- How the four nametables share their memory. -/
inductive Mirroring where
  /-- The tables side by side are one, for pictures that scroll vertically. -/
  | horizontal
  /-- The tables above each other are one, for pictures that scroll horizontally. -/
  | vertical
  | singleScreenLower
  | singleScreenUpper
  /-- The cartridge supplies the missing memory. -/
  | fourScreen
  deriving DecidableEq, Repr

namespace Mirroring

/-- The bytes of one nametable. -/
def tableSize : Nat := 0x400

/-- The bank of memory that shows as nametable `table`. -/
def bank (m : Mirroring) (table : Nat) : Nat :=
  match m with
  | horizontal => table / 2
  | vertical => table % 2
  | singleScreenLower => 0
  | singleScreenUpper => 1
  | fourScreen => table

theorem bank_lt (m : Mirroring) {table : Nat} (h : table < 4) : m.bank table < 4 := by
  cases m <;> simp only [bank] <;> omega

/-- The memory cell an address of the nametable area selects. Addresses repeat every 4 KiB. -/
def cell (m : Mirroring) (addr : UInt16) : Nat :=
  m.bank (addr.toNat / tableSize % 4) * tableSize + addr.toNat % tableSize

theorem cell_lt (m : Mirroring) (addr : UInt16) : m.cell addr < 0x1000 := by
  have hbank := m.bank_lt (Nat.mod_lt (addr.toNat / tableSize) (by decide : 4 > 0))
  have hoffset := Nat.mod_lt addr.toNat (by decide : tableSize > 0)
  simp only [cell, tableSize] at *
  omega

end Mirroring

/-- The memory behind the nametables. -/
structure Vram where
  cells : Vector UInt8 0x1000

namespace Vram

/-- Memory as it is at power-on. -/
def blank : Vram := ⟨Vector.replicate 0x1000 0⟩

/-- The byte at an address, under the arrangement in force. -/
def read (v : Vram) (m : Mirroring) (addr : UInt16) : UInt8 :=
  have := m.cell_lt addr
  v.cells[m.cell addr]

/-- Stores a byte at an address, under the arrangement in force. -/
def write (v : Vram) (m : Mirroring) (addr : UInt16) (value : UInt8) : Vram :=
  ⟨v.cells.set (m.cell addr) value (m.cell_lt addr)⟩

end Vram

end Famicom
