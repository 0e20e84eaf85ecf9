import Famicom.Machine.Access

/-!
# Resolving operands

From the bytes after the opcode to an address. Indexing in page zero stays there, and so do the
pointers kept there; the pointer of an indirect jump stays on its page. Any other index carries into
the high byte, and the resolution tells whether it did.
-/

namespace Famicom

/-- Where an operand is, and whether finding it has left the page it started on. -/
structure Operand where
  address : UInt16
  pageCrossed : Bool := false
  deriving DecidableEq, Repr

namespace Operand

/-- An address in page zero. -/
def inPageZero (offset : UInt8) : Operand := ⟨offset.toUInt16, false⟩

/-- An address with an index added. -/
def indexed (base : UInt16) (index : UInt8) : Operand :=
  let address := base + index.toUInt16
  ⟨address, !samePage base address⟩

/-- The target of a branch, from the address of the instruction that follows it. -/
def branch (next : UInt16) (offset : UInt8) : Operand :=
  let target := next + signExtend offset
  ⟨target, !samePage next target⟩

end Operand

namespace Machine

/-- Resolves the operand of an instruction and moves the program counter past it. -/
def resolve (m : Machine) (mode : Mode) : Operand × Machine :=
  match mode with
  | .implicit | .accumulator => (⟨0, false⟩, m)
  | .immediate =>
    let pc := m.registers.pc
    (⟨pc, false⟩, m.jump (pc + 1))
  | .zeroPage => let (offset, m) := m.fetch; (.inPageZero offset, m)
  | .zeroPageX => let (offset, m) := m.fetch; (.inPageZero (offset + m.registers.x), m)
  | .zeroPageY => let (offset, m) := m.fetch; (.inPageZero (offset + m.registers.y), m)
  | .relative => let (offset, m) := m.fetch; (.branch m.registers.pc offset, m)
  | .absolute => let (address, m) := m.fetchWord; (⟨address, false⟩, m)
  | .absoluteX => let (base, m) := m.fetchWord; (.indexed base m.registers.x, m)
  | .absoluteY => let (base, m) := m.fetchWord; (.indexed base m.registers.y, m)
  | .indirect =>
    let (pointer, m) := m.fetchWord
    let (address, m) := m.readWordInPage pointer
    (⟨address, false⟩, m)
  | .indirectX =>
    let (pointer, m) := m.fetch
    let (address, m) := m.readWordInPage (pointer + m.registers.x).toUInt16
    (⟨address, false⟩, m)
  | .indirectY =>
    let (pointer, m) := m.fetch
    let (base, m) := m.readWordInPage pointer.toUInt16
    (.indexed base m.registers.y, m)

end Machine

end Famicom
