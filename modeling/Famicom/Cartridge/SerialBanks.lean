import Famicom.Cartridge.Mirroring
import Famicom.Word

/-!
# Serial bank registers

The MMC1 board takes the value of a bank register one bit at a time: five writes, lowest bit first,
make one value, and the address of the fifth write names the register it goes to. A write with bit
7 set discards the bits collected so far and forces the program mode that fixes the last bank.

The bits come into a shift register at bit 4 and move down with every write, so that after five
writes the first of them is at bit 0. The arrangement of the nametables is latched when the control
register is loaded; forcing the program mode leaves it.
-/

namespace Famicom

/-- The bank registers. -/
inductive BankRegister where
  | control
  | pattern0
  | pattern1
  | program
  deriving DecidableEq, Repr

/-- The register a write at this address completes: bits 13 and 14 of the address. -/
def BankRegister.ofAddress (addr : UInt16) : BankRegister :=
  match addr.toNat / 0x2000 % 4 with
  | 0 => control
  | 1 => pattern0
  | 2 => pattern1
  | _ => program

/-- The bank registers of an MMC1 board and the bits on their way there. -/
structure SerialBanks where
  /-- Mirroring in bits 0 and 1, program mode in bits 2 and 3, split patterns in bit 4. -/
  control : Nat := 0b01100
  pattern0 : Nat := 0
  pattern1 : Nat := 0
  program : Nat := 0
  /-- The arrangement of the nametables, as the control register chose it when it was loaded. -/
  arrangement : Mirroring := .singleScreenLower
  /-- The bits of the group in progress, the latest at bit 4. -/
  shift : UInt8 := 0
  /-- The writes of the group in progress. -/
  count : Nat := 0
  deriving DecidableEq, Repr

namespace SerialBanks

/-- The writes that make one value. -/
def groupLength : Nat := 5

/-- The program mode that fixes the last bank at the top of the address space. -/
def fixedLastMode : Nat := 0b01100

/-- The arrangement that a value of the control register names. -/
def arrangementOf (control : Nat) : Mirroring :=
  match control % 4 with
  | 0 => .singleScreenLower
  | 1 => .singleScreenUpper
  | 2 => .vertical
  | _ => .horizontal

/-- Loads a complete value. -/
def commit (s : SerialBanks) (register : BankRegister) (value : Nat) : SerialBanks :=
  match register with
  | .control => { s with control := value, arrangement := arrangementOf value }
  | .pattern0 => { s with pattern0 := value }
  | .pattern1 => { s with pattern1 := value }
  | .program => { s with program := value }

/-- A write anywhere in the upper half of the address space. -/
def write (s : SerialBanks) (addr : UInt16) (value : UInt8) : SerialBanks :=
  if bit value 7 then { s with control := s.control ||| fixedLastMode, shift := 0, count := 0 }
  else
    let shift := s.shift >>> 1 ||| (value &&& 1) <<< 4
    let count := s.count + 1
    if count = groupLength then
      { s with shift := 0, count := 0 }.commit (.ofAddress addr) (shift &&& 0x1f).toNat
    else { s with shift, count }

/-- The arrangement of the nametables. -/
def mirroring (s : SerialBanks) : Mirroring := s.arrangement

/-- Work memory answers unless bit 4 of the program register is set. -/
def workRamEnabled (s : SerialBanks) : Bool := !s.program.testBit 4

/-- The 16 KiB bank of the program that shows at an address of the upper half. -/
def programBank (s : SerialBanks) (banks : Nat) (addr : UInt16) : Nat :=
  let select := s.program % 16
  let bank :=
    match s.control / 4 % 4 with
    | 0 | 1 => select / 2 * 2 + (if addr < 0xc000 then 0 else 1)
    | 2 => if addr < 0xc000 then 0 else select
    | _ => if addr < 0xc000 then select else banks - 1
  bank % banks

/-- The 4 KiB bank of the patterns that shows at an address. The address is compared as it stands:
one that only repeats the pattern area further up counts as its upper half. -/
def patternBank (s : SerialBanks) (banks : Nat) (addr : UInt16) : Nat :=
  let bank :=
    if s.control.testBit 4 then (if addr < 0x1000 then s.pattern0 else s.pattern1)
    else s.pattern0 / 2 * 2 + (if addr < 0x1000 then 0 else 1)
  bank % banks

end SerialBanks

end Famicom
