import Famicom.Cartridge.Error
import Famicom.Cartridge.Mirroring
import Famicom.Word

/-!
# Cartridge images

An iNES image is a header of sixteen bytes, the program in chunks of 16 KiB and the patterns in
chunks of 8 KiB; whatever follows is ignored. The header counts the chunks and describes the board:
its mapper number, its mirroring and whether it has work memory.

An image is refused for the first of these reasons that holds: it is shorter than a header, it does
not start with the magic, it has a trainer, it is of the second format version, it is for another
console, its payload is cut short.
-/

namespace Famicom

/-- A cartridge image: what the header says, and the two payloads. -/
structure Image where
  program : Array UInt8
  patterns : Array UInt8
  mirroring : Mirroring
  hasWorkRam : Bool
  mapper : Nat
  deriving DecidableEq

namespace Image

/-- The bytes of the header. -/
def headerSize : Nat := 16

/-- The bytes of a chunk of the program. -/
def programChunk : Nat := 0x4000

/-- The bytes of a chunk of patterns. -/
def patternChunk : Nat := 0x2000

/-- The bytes every image starts with. -/
def magic : Array UInt8 := #[0x4e, 0x45, 0x53, 0x1a]

/-- The fields of a header. -/
structure Header where
  programChunks : Nat
  patternChunks : Nat
  flags6 : UInt8
  flags7 : UInt8
  deriving DecidableEq, Repr

namespace Header

/-- The bytes of the program. -/
def programSize (h : Header) : Nat := h.programChunks * programChunk

/-- The bytes of the patterns. -/
def patternSize (h : Header) : Nat := h.patternChunks * patternChunk

/-- The least length of the whole image. -/
def imageSize (h : Header) : Nat := headerSize + h.programSize + h.patternSize

/-- A trainer stands between header and program. -/
def hasTrainer (h : Header) : Bool := bit h.flags6 2

/-- The header is of the second format version. -/
def isVersion2 (h : Header) : Bool := bit h.flags7 3 && !bit h.flags7 2

/-- The kind of console, zero being the baseline. -/
def consoleKind (h : Header) : Nat := h.flags7.toNat % 4

/-- The board has nametable memory of its own. -/
def isFourScreen (h : Header) : Bool := bit h.flags6 3

/-- The arrangement of the nametables; memory of its own overrides the wiring. -/
def mirroring (h : Header) : Mirroring :=
  if h.isFourScreen then .fourScreen
  else if bit h.flags6 0 then .vertical
  else .horizontal

/-- The board has work memory. -/
def hasWorkRam (h : Header) : Bool := bit h.flags6 1

/-- The mapper number: its low half from the one flag byte, its high half from the other. -/
def mapper (h : Header) : Nat := h.flags6.toNat / 16 + h.flags7.toNat / 16 * 16

end Header

/-- The header of an image, from bytes that are long enough. -/
def readHeader (bytes : Array UInt8) (h : headerSize ≤ bytes.size) : Header :=
  have : 16 ≤ bytes.size := h
  ⟨bytes[4].toNat, bytes[5].toNat, bytes[6], bytes[7]⟩

/-- Reads an image. -/
def parse (bytes : Array UInt8) : Except CartridgeError Image :=
  if long : headerSize ≤ bytes.size then
    let header := readHeader bytes long
    if bytes.extract 0 4 ≠ magic then .error .invalidMagic
    else if header.hasTrainer then .error .trainerUnsupported
    else if header.isVersion2 then .error .nes2Unsupported
    else if header.consoleKind ≠ 0 then .error (.unsupportedConsole header.consoleKind)
    else if bytes.size < header.imageSize then .error (.truncated header.imageSize bytes.size)
    else
      let programEnd := headerSize + header.programSize
      .ok {
        program := bytes.extract headerSize programEnd
        patterns := bytes.extract programEnd header.imageSize
        mirroring := header.mirroring
        hasWorkRam := header.hasWorkRam
        mapper := header.mapper }
  else .error (.truncated headerSize bytes.size)

/-- The board has pattern memory that can be written, for want of pattern ROM. -/
def hasPatternRam (image : Image) : Bool := image.patterns.isEmpty

end Image

end Famicom
