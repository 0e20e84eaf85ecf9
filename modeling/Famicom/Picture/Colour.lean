import Famicom.Word

/-!
# Colours

The picture chip knows 64 colours, fixed by its circuit, and has 32 cells of palette memory that
each choose one of them. The first cell of every sprite palette is the same as that of the
background palette of the same number, so 28 cells are distinct.
-/

namespace Famicom

/-- A colour as opacity, red, green and blue, a byte each, the opacity highest. -/
abbrev Colour := UInt32

/-- Opaque black. -/
def Colour.black : Colour := 0xff000000

/-- The colours of the chip. -/
def systemColours : Vector Colour 64 := #v[
  0xff545454, 0xff001e74, 0xff081090, 0xff300088, 0xff440064, 0xff5c0030, 0xff540400, 0xff3c1800,
  0xff202a00, 0xff083a00, 0xff004000, 0xff003c00, 0xff00302c, 0xff000000, 0xff000000, 0xff000000,
  0xff989698, 0xff084cc4, 0xff3032ec, 0xff5c1ee4, 0xff8814b0, 0xffa01464, 0xff982220, 0xff783c00,
  0xff545a00, 0xff287200, 0xff087c00, 0xff007628, 0xff006678, 0xff000000, 0xff000000, 0xff000000,
  0xffeceeec, 0xff3c7eec, 0xff5c5cec, 0xff8844ec, 0xffb02cec, 0xffe028b0, 0xffd83c50, 0xffc45400,
  0xffac7000, 0xff808800, 0xff409c30, 0xff20a458, 0xff209a88, 0xff404040, 0xff000000, 0xff000000,
  0xffeceeec, 0xffa8bcec, 0xffbcacec, 0xffd4a0ec, 0xffec94ec, 0xffec90d4, 0xffec9cb4, 0xffe4b090,
  0xffdcc878, 0xffd4dc78, 0xffb8ec98, 0xffa8ecbc, 0xffa0e4e4, 0xffa0a0a0, 0xff000000, 0xff000000]

/-- Palette memory. Its cells have six bits. -/
structure Palette where
  cells : Vector (Fin 64) 32
  deriving DecidableEq

namespace Palette

/-- Palette memory as it is at power-on. -/
def blank : Palette := ⟨Vector.replicate 32 (low6 0)⟩

/-- The cell behind an address or a slot number: they repeat every 32, and the first cell of a
sprite palette is that of the background palette. -/
def cell (n : Nat) : Nat :=
  let slot := n % 32
  if 16 ≤ slot ∧ slot % 4 = 0 then slot - 16 else slot

theorem cell_lt (n : Nat) : cell n < 32 := by
  simp only [cell]
  split <;> omega

/-- The colour number in a cell. -/
def entry (p : Palette) (n : Nat) : Fin 64 :=
  have := cell_lt n
  p.cells[cell n]

/-- A read at an address of the palette area. -/
def read (p : Palette) (addr : UInt16) : UInt8 := UInt8.ofNat (p.entry addr.toNat).val

/-- A write at an address of the palette area. The upper two bits of the byte are lost. -/
def write (p : Palette) (addr : UInt16) (value : UInt8) : Palette :=
  ⟨p.cells.set (cell addr.toNat) (low6 value.toNat) (cell_lt _)⟩

/-- The colour of a slot. The grey mode keeps only the brightness of the colour number. -/
def colour (p : Palette) (slot : Nat) (grey : Bool) : Colour :=
  let number := p.entry slot
  systemColours[if grey then low6 (number.val / 16 * 16) else number]

end Palette

end Famicom
