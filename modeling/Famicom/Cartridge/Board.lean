import Famicom.Cartridge.Circuit
import Famicom.Cartridge.Image

/-!
# Boards and the cartridge slot

A board joins memory to a bank circuit and sits on two buses. On the processor's bus it answers
from `$4020` on: work memory at `$6000`, the program from `$8000`. On the picture chip's bus it
answers below `$3f00`: the pattern memory, and above it the nametables. Where nothing drives a bus,
a read gives the high byte of the address.
-/

namespace Famicom

/-- Pattern memory: the patterns of the image, or 8 KiB that can be written when it has none. -/
structure PatternMemory where
  bytes : Array UInt8
  writable : Bool
  nonempty : 0 < bytes.size

namespace PatternMemory

/-- The pattern memory of an image. -/
def ofImage (patterns : Array UInt8) : PatternMemory :=
  if h : 0 < patterns.size then ⟨patterns, false, h⟩
  else ⟨Array.replicate 0x2000 0, true, by simp⟩

/-- The byte at an offset, folded into the memory. -/
def read (m : PatternMemory) (offset : Nat) : UInt8 :=
  have := Nat.mod_lt offset m.nonempty
  m.bytes[offset % m.bytes.size]

/-- Stores a byte at an offset, folded into the memory. ROM stays as it is. -/
def write (m : PatternMemory) (offset : Nat) (value : UInt8) : PatternMemory :=
  match m with
  | ⟨bytes, writable, nonempty⟩ =>
    if writable then
      let place := offset % bytes.size
      have inside : place < bytes.size := Nat.mod_lt _ nonempty
      ⟨bytes.set place value inside, writable, by simpa using nonempty⟩
    else ⟨bytes, writable, nonempty⟩

@[simp] theorem size_write (m : PatternMemory) (offset : Nat) (value : UInt8) :
    (m.write offset value).bytes.size = m.bytes.size := by
  unfold write
  dsimp only
  split
  · exact Array.size_set (Nat.mod_lt offset m.nonempty)
  · rfl

@[simp] theorem writable_write (m : PatternMemory) (offset : Nat) (value : UInt8) :
    (m.write offset value).writable = m.writable := by
  unfold write
  dsimp only
  split
  · rfl
  · rfl

end PatternMemory

/-- The bytes of a work memory. -/
def workRamSize : Nat := 0x2000

/-- A cartridge board. -/
structure Board where
  program : Array UInt8
  patterns : PatternMemory
  vram : Vram
  workRam : Option (Vector UInt8 workRamSize)
  circuit : Circuit

namespace Board

/-- A board of a kind at power-on. An MMC1 board always has work memory, an NROM board where asked
for it, and no other kind has any. -/
def assemble (kind : BoardKind) (program patterns : Array UInt8) (wiring : Mirroring)
    (withWorkRam : Bool) : Board where
  program := program
  patterns := .ofImage patterns
  vram := .blank
  workRam :=
    if kind = .mmc1 || (kind = .nrom && withWorkRam) then some (Vector.replicate _ 0) else none
  circuit := .powerOn wiring kind

/-- The board an image asks for. -/
def ofImage (image : Image) : Except CartridgeError Board :=
  match BoardKind.ofMapper? image.mapper with
  | some kind =>
    .ok (assemble kind image.program image.patterns image.mirroring image.hasWorkRam)
  | none => .error (.unsupportedMapper image.mapper)

/-- The arrangement of the nametables. -/
def mirroring (b : Board) : Mirroring := b.circuit.mirroring

/-! ## The processor's bus -/

/-- The cell of work memory behind an address. -/
def workRamCell (addr : UInt16) : Nat := addr.toNat % workRamSize

theorem workRamCell_lt (addr : UInt16) : workRamCell addr < workRamSize :=
  Nat.mod_lt _ (by decide)

/-- The byte that work memory shows at an address. -/
def readWorkRam (b : Board) (addr : UInt16) : UInt8 :=
  match b.workRam with
  | some ram =>
    have := workRamCell_lt addr
    if b.circuit.workRamEnabled then ram[workRamCell addr] else openBus addr
  | none => openBus addr

/-- Stores a byte in work memory. -/
def writeWorkRam (b : Board) (addr : UInt16) (value : UInt8) : Board :=
  match b with
  | ⟨program, patterns, vram, workRam, circuit⟩ =>
    ⟨program, patterns, vram,
      if circuit.workRamEnabled then
        workRam.map fun ram ↦ ram.set (workRamCell addr) value (workRamCell_lt addr)
      else workRam,
      circuit⟩

/-- A read by the processor; nothing where the circuit selects a byte that the program lacks. -/
def readCpu? (b : Board) (addr : UInt16) : Option UInt8 :=
  if addr < 0x6000 then some (openBus addr)
  else if addr < 0x8000 then some (b.readWorkRam addr)
  else if b.program.isEmpty then some (openBus addr)
  else b.program[b.circuit.programOffset b.program.size addr]?

/-- A write by the processor. -/
def writeCpu (b : Board) (addr : UInt16) (value : UInt8) : Board :=
  if addr < 0x6000 then b
  else if addr < 0x8000 then b.writeWorkRam addr value
  else { b with circuit := b.circuit.write addr value }

/-! ## The picture chip's bus -/

/-- The address lies in the pattern area. Addresses repeat every 16 KiB. -/
def isPattern (addr : UInt16) : Bool := addr.toNat % 0x4000 < 0x2000

/-- A read by the picture chip. -/
def readPpu (b : Board) (addr : UInt16) : UInt8 :=
  if isPattern addr then
    b.patterns.read (b.circuit.patternOffset b.patterns.bytes.size addr)
  else b.vram.read b.mirroring addr

/-- A write by the picture chip. -/
def writePpu (b : Board) (addr : UInt16) (value : UInt8) : Board :=
  match b with
  | ⟨program, patterns, vram, workRam, circuit⟩ =>
    if isPattern addr then
      let offset := circuit.patternOffset patterns.bytes.size addr
      ⟨program, patterns.write offset value, vram, workRam, circuit⟩
    else ⟨program, patterns, vram.write circuit.mirroring addr value, workRam, circuit⟩

end Board

/-- The cartridge slot of the console. -/
inductive Slot where
  | empty
  | holding (board : Board)

namespace Slot

/-- The slot with the board that the bytes of an image ask for. -/
def ofBytes (bytes : Array UInt8) : Except CartridgeError Slot := do
  let image ← Image.parse bytes
  let board ← Board.ofImage image
  return holding board

/-- A read by the processor; nothing where the board selects a byte that its program lacks. -/
def readCpu? (s : Slot) (addr : UInt16) : Option UInt8 :=
  match s with
  | empty => some (openBus addr)
  | holding board => board.readCpu? addr

/-- A write by the processor. -/
def writeCpu (s : Slot) (addr : UInt16) (value : UInt8) : Slot :=
  match s with
  | empty => empty
  | holding board => holding (board.writeCpu addr value)

/-- A read by the picture chip. -/
def readPpu (s : Slot) (addr : UInt16) : UInt8 :=
  match s with
  | empty => openBus addr
  | holding board => board.readPpu addr

/-- A write by the picture chip. -/
def writePpu (s : Slot) (addr : UInt16) (value : UInt8) : Slot :=
  match s with
  | empty => empty
  | holding board => holding (board.writePpu addr value)

/-- The arrangement of the nametables. -/
def mirroring : Slot → Mirroring
  | empty => .horizontal
  | holding board => board.mirroring

/-- What is in the slot, for a person. -/
def description : Slot → Description
  | empty => ⟨"Empty", ["none"], "No cartridge inserted"⟩
  | holding board => board.circuit.kind.description

end Slot

end Famicom
