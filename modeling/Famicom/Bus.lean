import Famicom.Bus.Region
import Famicom.Cartridge.Board
import Famicom.Pad
import Famicom.Picture.Ppu
import Famicom.Processor.Lines
import Famicom.Sound.Apu

/-!
# The bus

Everything of the console but the processor: the chips, the memory, the controllers and the
cartridge, joined by the processor's address space and by the interrupt lines. A read is an
operation on the bus like a write, because several registers change when they are read.

A read that selects a byte the cartridge lacks sets the `fault` latch; what the bus says after that
is void.
-/

namespace Famicom

/-- Everything of the console but the processor. -/
structure Bus where
  ram : Vector UInt8 0x800
  /-- Eight bytes that a later console used for tests, plain memory here. -/
  testBlock : Vector UInt8 8
  ppu : Ppu
  apu : Apu
  slot : Slot
  pads : Vector Pad 2
  lines : Lines
  /-- The page of a sprite transfer that has been asked for and not begun. -/
  transferPage : Option UInt8
  /-- Some read selected a byte that the cartridge lacks. -/
  fault : Bool

namespace Bus

/-- The bus at power-on. -/
def powerOn (tv : Television) (slot : Slot) : Bus where
  ram := Vector.replicate _ 0
  testBlock := Vector.replicate _ 0
  ppu := .powerOn tv
  apu := .powerOn tv
  slot := slot
  pads := Vector.replicate _ {}
  lines := {}
  transferPage := none
  fault := false

/-- Something has gone wrong that makes what the bus says void. -/
def faulted (b : Bus) : Bool := b.fault || b.apu.pacer.fault

/-- A reset as memory sees it. Only a power cycle clears the memory; either drops the strobes and
forgets a transfer that has been asked for. -/
def resetMemory (b : Bus) (powerCycle : Bool) : Bus :=
  { b with
    ram := if powerCycle then Vector.replicate _ 0 else b.ram
    testBlock := if powerCycle then Vector.replicate _ 0 else b.testBlock
    pads := b.pads.map (·.writeStrobe 0)
    transferPage := none }

/-- Changes a controller, if there is one of this number. -/
def modifyPad? (b : Bus) (i : Nat) (change : Pad → Pad) : Option Bus :=
  if h : i < 2 then some { b with pads := b.pads.set i (change b.pads[i]) } else none

/-! ## The picture chip -/

/-- A read of a register of the picture chip. -/
def readPicture (b : Bus) (index : Fin 8) : UInt8 × Bus :=
  let (value, ppu) := b.ppu.busRead b.slot.readPpu index
  (value, { b with ppu })

/-- A write to a register of the picture chip, which may pass the byte on to the cartridge. -/
def writePicture (b : Bus) (index : Fin 8) (value : UInt8) : Bus :=
  let (ppu, passed) := b.ppu.busWrite index value
  match passed with
  | none => { b with ppu }
  | some w => { b with ppu, slot := b.slot.writePpu w.addr w.value }

/-- One dot of the picture chip, telling whether it ended a frame. -/
def clockPicture (b : Bus) : Bool × Bus :=
  let dot := b.ppu.tick b.slot.readPpu
  (dot.frameDone,
    { b with ppu := dot.ppu, lines := if dot.nmi then b.lines.requestNmi else b.lines })

/-! ## The sound chip -/

/-- A read of the sound chip's status. If it acknowledges an interrupt, the line is released. -/
def readSoundStatus (b : Bus) : UInt8 × Bus :=
  let lines := if b.apu.irqFlag then b.lines.acknowledgeIrq else b.lines
  let (value, apu) := b.apu.readStatus
  (value, { b with apu, lines })

/-- A write to the sound chip. A write to the sequencer that leaves no interrupt flag releases the
line. -/
def writeSound (b : Bus) (addr : UInt16) (value : UInt8) : Bus :=
  let apu := b.apu.write addr value
  let lines := if addr == 0x4017 && !apu.irqFlag then b.lines.acknowledgeIrq else b.lines
  { b with apu, lines }

/-- One processor cycle of the sound chip, which holds the line while its flag is set. -/
def clockSound (b : Bus) : Bus :=
  let apu := b.apu.clock
  let lines := if apu.irqFlag then b.lines.requestIrq else b.lines
  { b with apu, lines }

/-! ## The address space -/

/-- The bits of a read that a controller does not drive. -/
def padOpenBus : UInt8 := 0x40

/-- A read of a controller. -/
def readPad (b : Bus) (i : Fin 2) : UInt8 × Bus :=
  let (value, pad) := b.pads[i].read
  (value ||| padOpenBus, { b with pads := b.pads.set i pad })

/-- Sets the strobe of both controllers. -/
def writeStrobe (b : Bus) (value : UInt8) : Bus :=
  { b with pads := b.pads.map (·.writeStrobe value) }

/-- A read of the region of sound chip and controllers, most of which can only be written. -/
def readIo (b : Bus) (offset : Fin 0x18) : UInt8 × Bus :=
  match offset with
  | 0x15 => b.readSoundStatus
  | 0x16 => b.readPad 0
  | 0x17 => b.readPad 1
  | _ => (0x40, b)

/-- A write to the region of sound chip and controllers. -/
def writeIo (b : Bus) (offset : Fin 0x18) (value : UInt8) : Bus :=
  match offset with
  | 0x14 => { b with transferPage := some value }
  | 0x16 => b.writeStrobe value
  | _ => b.writeSound (0x4000 + UInt16.ofNat offset.val) value

/-- A read by the processor. -/
def read (b : Bus) (addr : UInt16) : UInt8 × Bus :=
  match Region.ofAddress addr with
  | .ram cell => (b.ram[cell], b)
  | .picture index => b.readPicture index
  | .io offset => b.readIo offset
  | .testBlock cell => (b.testBlock[cell], b)
  | .cartridge addr =>
    match b.slot.readCpu? addr with
    | some value => (value, b)
    | none => (0, { b with fault := true })

/-- A write by the processor. -/
def write (b : Bus) (addr : UInt16) (value : UInt8) : Bus :=
  match Region.ofAddress addr with
  | .ram cell => { b with ram := b.ram.set cell value }
  | .picture index => b.writePicture index value
  | .io offset => b.writeIo offset value
  | .testBlock cell => { b with testBlock := b.testBlock.set cell value }
  | .cartridge addr => { b with slot := b.slot.writeCpu addr value }

/-- Reads a word, low byte first. -/
def readWord (b : Bus) (addr : UInt16) : UInt16 × Bus :=
  let (low, b) := b.read addr
  let (high, b) := b.read (addr + 1)
  (wordOf low high, b)

/-- The address after this one on the same page; the last is followed by the first. -/
def nextInPage (addr : UInt16) : UInt16 := wordOf (lowByte addr + 1) (highByte addr)

/-- Reads a word, low byte first, without leaving the page. Pointers are read this way. -/
def readWordInPage (b : Bus) (addr : UInt16) : UInt16 × Bus :=
  let (low, b) := b.read addr
  let (high, b) := b.read (nextInPage addr)
  (wordOf low high, b)

/-- Writes a word, low byte first. -/
def writeWord (b : Bus) (addr value : UInt16) : Bus :=
  (b.write addr (lowByte value)).write (addr + 1) (highByte value)

/-- The results of reading addresses one after the other, put before the reverse of `done`. -/
def readAllFrom (done : List UInt8) : List UInt16 → Bus → List UInt8 × Bus
  | [], b => (done.reverse, b)
  | addr :: rest, b => let (value, b) := b.read addr; readAllFrom (value :: done) rest b

/-- The results of reading addresses one after the other. -/
def readAll (b : Bus) (addrs : List UInt16) : List UInt8 × Bus := readAllFrom [] addrs b

/-- Writes bytes to addresses one after the other. -/
def writeAll (b : Bus) (writes : List (UInt16 × UInt8)) : Bus :=
  writes.foldl (fun b (addr, value) ↦ b.write addr value) b

/-- The page of a sprite transfer that has been asked for, which is then forgotten. -/
def takeTransfer (b : Bus) : Option UInt8 × Bus := (b.transferPage, { b with transferPage := none })

end Bus

end Famicom
