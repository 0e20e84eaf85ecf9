import Famicom.Cartridge.SerialBanks

/-!
# Bank circuits

Five kinds of board are known, by the circuit that chooses which part of the cartridge's memory
shows at an address. A circuit is its registers; everything else is a function of them: the offset
into the program behind an address of the upper half, the offset into the patterns behind an address
of the pattern area, the arrangement of the nametables, and what a write to the upper half does.

Offsets are folded into the memory by its size. The one exception is the program of an MMC1 board:
its banks are counted but its offset is not folded, so a program shorter than one bank has addresses
with nothing behind them.
-/

namespace Famicom

/-- The kinds of board. -/
inductive BoardKind where
  | nrom
  | mmc1
  | uxrom
  | cnrom
  | axrom
  deriving DecidableEq, Repr

/-- The kind with a mapper number. -/
def BoardKind.ofMapper? : Nat → Option BoardKind
  | 0 => some nrom
  | 1 => some mmc1
  | 2 => some uxrom
  | 3 => some cnrom
  | 7 => some axrom
  | _ => none

/-- How a kind of cartridge slot content is described to a person. -/
structure Description where
  name : String
  aliases : List String
  summary : String
  deriving DecidableEq, Repr

/-- The description of a kind. -/
def BoardKind.description : BoardKind → Description
  | nrom => ⟨"NROM", ["mapper 0", "NES-NROM-128", "NES-NROM-256"],
      "Fixed 16/32KB PRG and 8KB CHR, no bank switching"⟩
  | mmc1 => ⟨"MMC1", ["mapper 1", "SxROM", "MMC1B"],
      "Serial-loaded PRG/CHR bank switching with programmable mirroring"⟩
  | uxrom => ⟨"UxROM", ["mapper 2", "UNROM", "UOROM"],
      "Switchable 16KB PRG bank with the last bank fixed"⟩
  | cnrom => ⟨"CNROM", ["mapper 3"], "Fixed PRG with a switchable 8KB CHR bank"⟩
  | axrom => ⟨"AxROM", ["mapper 7", "ANROM", "AOROM"],
      "32KB PRG switching with one-screen mirroring select"⟩

/-- The bank circuit of a board, with its registers. -/
inductive Circuit where
  | nrom (wiring : Mirroring)
  | mmc1 (serial : SerialBanks)
  | uxrom (wiring : Mirroring) (bank : UInt8)
  | cnrom (wiring : Mirroring) (bank : UInt8)
  | axrom (latch : UInt8)
  deriving DecidableEq, Repr

namespace Circuit

/-- The kind of board the circuit belongs to. -/
def kind : Circuit → BoardKind
  | nrom _ => .nrom
  | mmc1 _ => .mmc1
  | uxrom _ _ => .uxrom
  | cnrom _ _ => .cnrom
  | axrom _ => .axrom

/-- The circuit of a kind at power-on. Boards that choose the arrangement themselves ignore how
they are wired. -/
def powerOn (wiring : Mirroring) : BoardKind → Circuit
  | .nrom => nrom wiring
  | .mmc1 => mmc1 {}
  | .uxrom => uxrom wiring 0
  | .cnrom => cnrom wiring 0
  | .axrom => axrom 0

/-- The arrangement of the nametables. -/
def mirroring : Circuit → Mirroring
  | nrom wiring | uxrom wiring _ | cnrom wiring _ => wiring
  | mmc1 serial => serial.mirroring
  | axrom latch => if bit latch 4 then .singleScreenUpper else .singleScreenLower

/-- Whether work memory, if there is any, is connected. -/
def workRamEnabled : Circuit → Bool
  | mmc1 serial => serial.workRamEnabled
  | _ => true

/-- A processor write to the upper half of the address space. -/
def write (c : Circuit) (addr : UInt16) (value : UInt8) : Circuit :=
  match c with
  | nrom wiring => nrom wiring
  | mmc1 serial => mmc1 (serial.write addr value)
  | uxrom wiring _ => uxrom wiring value
  | cnrom wiring _ => cnrom wiring value
  | axrom _ => axrom value

/-- The banks of `bankSize` bytes in a memory of `size` bytes; a smaller memory counts as one. -/
def bankCount (size bankSize : Nat) : Nat := max 1 (size / bankSize)

theorem bankCount_pos (size bankSize : Nat) : 0 < bankCount size bankSize :=
  Nat.le_max_left _ _

theorem bankCount_mul {bankSize banks : Nat} (hsize : 0 < bankSize) (hbanks : 0 < banks) :
    bankCount (bankSize * banks) bankSize = banks := by
  rw [bankCount, Nat.mul_div_cancel_left _ hsize]
  omega

/-- The bytes of a bank of the program. -/
def programBankSize : Nat := 0x4000

/-- Where an address of the upper half lies in a program of `size` bytes. -/
def programOffset (c : Circuit) (size : Nat) (addr : UInt16) : Nat :=
  let banks := bankCount size programBankSize
  let inBank := addr.toNat % programBankSize
  match c with
  | nrom _ | cnrom _ _ => (addr.toNat - 0x8000) % size
  | mmc1 serial => serial.programBank banks addr * programBankSize + inBank
  | uxrom _ bank =>
    ((if addr < 0xc000 then bank.toNat % banks else banks - 1) * programBankSize + inBank) % size
  | axrom latch => (latch.toNat % 8 * 0x8000 + (addr.toNat - 0x8000)) % size

/-- Where an address of the pattern area lies in a pattern memory of `size` bytes, before it is
folded into that size. -/
def patternOffset (c : Circuit) (size : Nat) (addr : UInt16) : Nat :=
  match c with
  | nrom _ | uxrom _ _ | axrom _ => addr.toNat % 0x2000
  | mmc1 serial => serial.patternBank (bankCount size 0x1000) addr * 0x1000 + addr.toNat % 0x1000
  | cnrom _ bank => bank.toNat % bankCount size 0x2000 * 0x2000 + addr.toNat % 0x2000

end Circuit

end Famicom
