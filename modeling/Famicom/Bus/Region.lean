import Famicom.Word

/-!
# Regions of the address space

Where an address of the processor lands. Memory repeats through the first 8 KiB and the registers
of the picture chip through the next; then come the sound chip and the controllers, eight bytes that
are nothing but memory here, and the cartridge.
-/

namespace Famicom

/-- Where an address lands. -/
inductive Region where
  | ram (cell : Fin 0x800)
  | picture (index : Fin 8)
  /-- The sound chip, the controllers and the sprite transfer. -/
  | io (offset : Fin 0x18)
  | testBlock (cell : Fin 8)
  | cartridge (addr : UInt16)
  deriving DecidableEq, Repr

/-- The region of an address. -/
def Region.ofAddress (addr : UInt16) : Region :=
  let n := addr.toNat
  if n < 0x2000 then .ram (Fin.ofNat _ n)
  else if n < 0x4000 then .picture (low3 n)
  else if h : n < 0x4018 then .io ⟨n - 0x4000, by omega⟩
  else if n < 0x4020 then .testBlock (low3 n)
  else .cartridge addr

end Famicom
