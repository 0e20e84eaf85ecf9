import Famicom.Proofs.Safety.Check
import Famicom.Proofs.Cartridge.SerialPort
import Famicom.Proofs.Cartridge.Format

/-!
# The cartridge does not crash

The checks that a cartridge makes: in reading an image, and in every access from either bus. A board
made from an image has a program of whole chunks, fewer than 256 of them, and patterns of a bounded
size; its serial port, if it has one, keeps to its ranges (`Board.IsSafe`). That is enough for every
access, and every access keeps it. It also means that no read of the processor misses the program.
-/

namespace Famicom

open Check

/-! ## Pattern memory and nametables -/

namespace PatternMemory

/-- The checks of a read. -/
def readChecks (m : PatternMemory) (offset : Nat) : List Check :=
  [.divide m.bytes.size, .index m.bytes.size (offset % m.bytes.size)]

/-- The checks of a write, which does nothing to ROM. -/
def writeChecks (m : PatternMemory) (offset : Nat) : List Check :=
  if m.writable then m.readChecks offset else []

variable (m : PatternMemory) (offset : Nat)

theorem allPass_readChecks : AllPass (m.readChecks offset) := by
  simp [readChecks, Nat.mod_lt offset m.nonempty, Nat.ne_of_gt m.nonempty]

theorem allPass_writeChecks : AllPass (m.writeChecks offset) :=
  allPass_if fun _ ↦ m.allPass_readChecks offset

theorem size_ofImage_le (patterns : Array UInt8) :
    (ofImage patterns).bytes.size ≤ max 0x2000 patterns.size := by
  rw [ofImage]
  split
  · exact Nat.le_max_right _ _
  · exact Nat.le_trans (Nat.le_of_eq Array.size_replicate) (Nat.le_max_left _ _)

end PatternMemory

/-- The checks of an access to the nametables. -/
def Mirroring.cellChecks (m : Mirroring) (addr : UInt16) : List Check :=
  let table := m.bank (addr.toNat / tableSize % 4)
  [.fits .w64 (table * tableSize), .fits .w64 (m.cell addr), .index 0x1000 (m.cell addr)]

theorem Mirroring.allPass_cellChecks (m : Mirroring) (addr : UInt16) :
    AllPass (m.cellChecks addr) := by
  have cell := m.cell_lt addr
  have bank : m.bank (addr.toNat / tableSize % 4) * tableSize ≤ m.cell addr :=
    Nat.le_add_right _ _
  simp only [cellChecks, allPass_cons, passes_fits, passes_index, allPass_nil, and_true,
    Width.limit]
  omega

/-! ## Bank circuits -/

/-- The checks of finding the bank of an MMC1 board. -/
def SerialBanks.programBankChecks (s : SerialBanks) (banks : Nat) (addr : UInt16) : List Check :=
  let half := if addr < 0xc000 then 0 else 1
  let mode :=
    match s.control / 4 % 4 with
    | 0 | 1 => [.fits .w64 (s.program % 16 / 2 * 2 + half)]
    | 2 => []
    | _ => if addr < 0xc000 then [] else [.subtract banks 1]
  mode ++ [.divide banks]

namespace Circuit

/-- The checks of finding the byte of the program behind an address. -/
def programChecks (c : Circuit) (size : Nat) (addr : UInt16) : List Check :=
  let banks := bankCount size programBankSize
  let inBank := addr.toNat % programBankSize
  match c with
  | nrom _ | cnrom _ _ => [.subtract addr.toNat 0x8000, .divide size]
  | mmc1 serial =>
    let bank := serial.programBank banks addr
    serial.programBankChecks banks addr ++
      [.fits .w64 (bank * programBankSize), .fits .w64 (bank * programBankSize + inBank)]
  | uxrom _ select =>
    let bank := if addr < 0xc000 then select.toNat % banks else banks - 1
    (if addr < 0xc000 then [.divide banks] else [.subtract banks 1]) ++
      [.fits .w64 (bank * programBankSize), .fits .w64 (bank * programBankSize + inBank),
        .divide size]
  | axrom latch =>
    let bank := latch.toNat % 8
    [.fits .w64 (bank * 0x8000), .subtract addr.toNat 0x8000,
      .fits .w64 (bank * 0x8000 + (addr.toNat - 0x8000)), .divide size]

/-- The checks of finding the byte of the patterns behind an address. -/
def patternChecks (c : Circuit) (size : Nat) (addr : UInt16) : List Check :=
  match c with
  | nrom _ | uxrom _ _ | axrom _ => []
  | mmc1 serial =>
    let bank := serial.patternBank (bankCount size 0x1000) addr
    [.divide (bankCount size 0x1000), .fits .w64 (bank * 0x1000),
      .fits .w64 (bank * 0x1000 + addr.toNat % 0x1000)]
  | cnrom _ select =>
    let bank := select.toNat % bankCount size 0x2000
    [.divide (bankCount size 0x2000), .fits .w64 (bank * 0x2000),
      .fits .w64 (bank * 0x2000 + addr.toNat % 0x2000)]

/-- The checks of a write to the upper half of the address space: the serial port counts it. -/
def writeChecks (c : Circuit) (value : UInt8) : List Check :=
  match c with
  | mmc1 serial => if bit value 7 then [] else [.fits .w8 (serial.count + 1)]
  | _ => []

/-- The serial port, if there is one, keeps to its ranges. -/
def IsSound : Circuit → Prop
  | mmc1 serial => serial.IsSound
  | _ => True

theorem isSound_powerOn (wiring : Mirroring) (kind : BoardKind) :
    (powerOn wiring kind).IsSound := by
  cases kind with
  | mmc1 => exact SerialBanks.IsSound.powerOn
  | nrom | uxrom | cnrom | axrom => trivial

theorem IsSound.write {c : Circuit} (h : c.IsSound) (addr : UInt16) (value : UInt8) :
    (c.write addr value).IsSound := by
  cases c with
  | mmc1 serial => exact SerialBanks.IsSound.write h (addr, value)
  | nrom | uxrom | cnrom | axrom => trivial

theorem IsSound.allPass_writeChecks {c : Circuit} (h : c.IsSound) (value : UInt8) :
    AllPass (c.writeChecks value) := by
  cases c with
  | mmc1 serial =>
    have count := SerialBanks.IsSound.count_lt h
    refine allPass_unless fun _ ↦ ?_
    simp only [allPass_cons, passes_fits, allPass_nil, and_true, Width.limit]
    omega
  | nrom | uxrom | cnrom | axrom => exact allPass_nil

/-- The whole banks lie within the memory, unless it is shorter than one. -/
theorem bankCount_mul_le (size bankSize : Nat) :
    bankCount size bankSize * bankSize ≤ max bankSize size := by
  rw [bankCount]
  rcases Nat.le_total (size / bankSize) 1 with hshort | hwhole
  · rw [Nat.max_eq_left hshort, Nat.one_mul]
    exact Nat.le_max_left _ _
  · rw [Nat.max_eq_right hwhole]
    exact Nat.le_trans (Nat.div_mul_le_self _ _) (Nat.le_max_right _ _)

theorem programBank_lt (s : SerialBanks) {banks : Nat} (h : 0 < banks) (addr : UInt16) :
    s.programBank banks addr < banks := Nat.mod_lt _ h

theorem patternBank_lt (s : SerialBanks) {banks : Nat} (h : 0 < banks) (addr : UInt16) :
    s.patternBank banks addr < banks := Nat.mod_lt _ h

section

variable (c : Circuit) {size : Nat} {addr : UInt16}

/-- A place in one of the banks that a memory counts. -/
theorem mul_add_lt_of_bankCount {bank inBank bankSize : Nat}
    (hbank : bank < bankCount size bankSize) (hinBank : inBank < bankSize) :
    bank * bankSize + inBank < max bankSize size := by
  have whole := bankCount_mul_le size bankSize
  have next := Nat.mul_le_mul_right bankSize (Nat.succ_le_of_lt hbank)
  rw [Nat.succ_mul] at next
  omega

/-- A program of at least one bank has a byte behind every address of the upper half. -/
theorem programOffset_lt (hsize : 0x4000 ≤ size) : c.programOffset size addr < size := by
  have pos : 0 < size := by omega
  cases c with
  | nrom | uxrom | cnrom | axrom => exact Nat.mod_lt _ pos
  | mmc1 serial =>
    have bank := programBank_lt serial (bankCount_pos size programBankSize) addr
    have inBank := Nat.mod_lt addr.toNat (show 0 < programBankSize by decide)
    have place := mul_add_lt_of_bankCount bank inBank
    rw [programBankSize, Nat.max_eq_right hsize] at place
    exact place

theorem allPass_programChecks (hsize : 0 < size) (hlimit : size < Width.w64.limit)
    (hupper : 0x8000 ≤ addr) : AllPass (c.programChecks size addr) := by
  have above : 0x8000 ≤ addr.toNat := hupper
  have below := addr.toNat_lt
  have banks := bankCount_pos size programBankSize
  have inBank := Nat.mod_lt addr.toNat (show 0 < programBankSize by decide)
  rw [Width.limit] at hlimit
  cases c with
  | nrom | cnrom =>
    simp only [programChecks, allPass_cons, passes_subtract, passes_divide, allPass_nil, and_true]
    omega
  | mmc1 serial =>
    have place := mul_add_lt_of_bankCount (programBank_lt serial banks addr) inBank
    have mode : AllPass (serial.programBankChecks (bankCount size programBankSize) addr) := by
      refine AllPass.append ?_ (by simpa using Nat.ne_of_gt banks)
      split
      · simp only [allPass_cons, passes_fits, allPass_nil, and_true, Width.limit]
        split <;> omega
      · simp only [allPass_cons, passes_fits, allPass_nil, and_true, Width.limit]
        split <;> omega
      · exact allPass_nil
      · exact allPass_unless fun _ ↦ allPass_singleton.mpr banks
    simp only [programChecks, allPass_append, allPass_cons, passes_fits, allPass_nil,
      and_true, Width.limit]
    refine ⟨mode, ?_⟩
    rw [programBankSize] at place ⊢
    omega
  | uxrom wiring select =>
    have bank : (if addr < 0xc000 then select.toNat % bankCount size programBankSize
        else bankCount size programBankSize - 1) < bankCount size programBankSize := by
      have fold := Nat.mod_lt select.toNat banks
      split <;> omega
    have place := mul_add_lt_of_bankCount bank inBank
    simp only [programChecks, allPass_append, allPass_cons, passes_fits, passes_divide,
      allPass_nil, and_true, Width.limit]
    refine ⟨allPass_ite.mpr ⟨fun _ ↦ ?_, fun _ ↦ ?_⟩, ?_⟩
    · simpa using Nat.ne_of_gt banks
    · exact allPass_singleton.mpr banks
    · rw [programBankSize] at place ⊢
      omega
  | axrom latch =>
    simp only [programChecks, allPass_cons, passes_fits, passes_subtract, passes_divide,
      allPass_nil, and_true, Width.limit]
    omega

theorem allPass_patternChecks (hlimit : size < Width.w64.limit) :
    AllPass (c.patternChecks size addr) := by
  rw [Width.limit] at hlimit
  cases c with
  | nrom | uxrom | axrom => exact allPass_nil
  | mmc1 serial =>
    have banks := bankCount_pos size 0x1000
    have inBank := Nat.mod_lt addr.toNat (show 0 < 0x1000 by decide)
    have place := mul_add_lt_of_bankCount (patternBank_lt serial banks addr) inBank
    simp only [patternChecks, allPass_cons, passes_fits, passes_divide, allPass_nil, and_true,
      Width.limit]
    omega
  | cnrom wiring select =>
    have banks := bankCount_pos size 0x2000
    have inBank := Nat.mod_lt addr.toNat (show 0 < 0x2000 by decide)
    have place := mul_add_lt_of_bankCount (Nat.mod_lt select.toNat banks) inBank
    simp only [patternChecks, allPass_cons, passes_fits, passes_divide, allPass_nil, and_true,
      Width.limit]
    omega

end

end Circuit

/-! ## Boards -/

namespace Board

/-- The checks of an access to work memory. -/
def workRamChecks (b : Board) (addr : UInt16) : List Check :=
  if b.workRam.isSome && b.circuit.workRamEnabled then
    [.subtract addr.toNat 0x6000, .index workRamSize (addr.toNat - 0x6000)]
  else []

/-- The checks of a read by the processor. -/
def readCpuChecks (b : Board) (addr : UInt16) : List Check :=
  if addr < 0x6000 then []
  else if addr < 0x8000 then b.workRamChecks addr
  else if b.program.isEmpty then []
  else
    b.circuit.programChecks b.program.size addr ++
      [.index b.program.size (b.circuit.programOffset b.program.size addr)]

/-- The checks of a write by the processor. -/
def writeCpuChecks (b : Board) (addr : UInt16) (value : UInt8) : List Check :=
  if addr < 0x6000 then []
  else if addr < 0x8000 then b.workRamChecks addr
  else b.circuit.writeChecks value

/-- The checks of a read by the picture chip. -/
def readPpuChecks (b : Board) (addr : UInt16) : List Check :=
  let size := b.patterns.bytes.size
  if isPattern addr then
    b.circuit.patternChecks size addr ++ b.patterns.readChecks (b.circuit.patternOffset size addr)
  else b.mirroring.cellChecks addr

/-- The checks of a write by the picture chip. -/
def writePpuChecks (b : Board) (addr : UInt16) : List Check :=
  let size := b.patterns.bytes.size
  if isPattern addr then
    b.circuit.patternChecks size addr ++ b.patterns.writeChecks (b.circuit.patternOffset size addr)
  else b.mirroring.cellChecks addr

section

variable (b : Board) (addr : UInt16)

theorem allPass_workRamChecks (low : 0x6000 ≤ addr) (high : addr < 0x8000) :
    AllPass (b.workRamChecks addr) := by
  have above : 0x6000 ≤ addr.toNat := low
  have below : addr.toNat < 0x8000 := high
  refine allPass_if fun _ ↦ ?_
  simp only [allPass_cons, passes_subtract, passes_index, allPass_nil, and_true, workRamSize]
  omega

theorem allPass_writeCpuChecks (h : b.circuit.IsSound) (value : UInt8) :
    AllPass (b.writeCpuChecks addr value) := by
  rw [writeCpuChecks]
  split
  case isTrue => exact allPass_nil
  case isFalse low =>
    split
    case isTrue high => exact b.allPass_workRamChecks addr (UInt16.not_lt.mp low) high
    case isFalse => exact h.allPass_writeChecks value

theorem allPass_readPpuChecks (h : b.patterns.bytes.size < Width.w64.limit) :
    AllPass (b.readPpuChecks addr) :=
  allPass_ite.mpr
    ⟨fun _ ↦ (b.circuit.allPass_patternChecks h).append (b.patterns.allPass_readChecks _),
      fun _ ↦ b.mirroring.allPass_cellChecks addr⟩

theorem allPass_writePpuChecks (h : b.patterns.bytes.size < Width.w64.limit) :
    AllPass (b.writePpuChecks addr) :=
  allPass_ite.mpr
    ⟨fun _ ↦ (b.circuit.allPass_patternChecks h).append (b.patterns.allPass_writeChecks _),
      fun _ ↦ b.mirroring.allPass_cellChecks addr⟩

end

/-- The memories have sizes that an image can give them, and the serial port keeps to its ranges. -/
structure IsSafe (b : Board) : Prop where
  program : ∃ chunks < 256, b.program.size = 0x4000 * chunks
  patterns : b.patterns.bytes.size < 0x200000
  circuit : b.circuit.IsSound

namespace IsSafe

variable {b : Board}

theorem ofImage {bytes : Array UInt8} {image : Image} (parsed : Image.parse bytes = .ok image)
    (made : Board.ofImage image = .ok b) : b.IsSafe := by
  obtain ⟨program, patterns⟩ := Image.size_of_parse parsed
  have programChunks := Image.byteAt_lt bytes 4
  have patternChunks := Image.byteAt_lt bytes 5
  rw [Board.ofImage] at made
  cases hkind : BoardKind.ofMapper? image.mapper with
  | none =>
    rw [hkind] at made
    cases made
  | some kind =>
    rw [hkind] at made
    cases made
    have size := PatternMemory.size_ofImage_le image.patterns
    refine ⟨⟨_, programChunks, program⟩, Nat.lt_of_le_of_lt size ?_,
      Circuit.isSound_powerOn _ kind⟩
    omega

theorem writeCpu (h : b.IsSafe) (addr : UInt16) (value : UInt8) :
    (b.writeCpu addr value).IsSafe := by
  rw [Board.writeCpu]
  split
  · exact h
  · split
    · exact ⟨h.program, h.patterns, h.circuit⟩
    · exact ⟨h.program, h.patterns, h.circuit.write addr value⟩

theorem writePpu (h : b.IsSafe) (addr : UInt16) (value : UInt8) :
    (b.writePpu addr value).IsSafe := by
  rw [Board.writePpu]
  split
  · exact ⟨h.program, by simpa using h.patterns, h.circuit⟩
  · exact ⟨h.program, h.patterns, h.circuit⟩

/-- A program that is not empty has at least one chunk. -/
theorem size_bounds (h : b.IsSafe) (hprogram : b.program.isEmpty = false) :
    0x4000 ≤ b.program.size ∧ b.program.size < Width.w64.limit := by
  obtain ⟨chunks, hlimit, size⟩ := h.program
  have pos : 0 < b.program.size := Array.size_pos_iff.mpr (Array.isEmpty_eq_false_iff.mp hprogram)
  rw [size, Width.limit] at *
  omega

theorem patterns_lt (h : b.IsSafe) : b.patterns.bytes.size < Width.w64.limit :=
  Nat.lt_trans h.patterns (by decide)

theorem allPass_readCpuChecks (h : b.IsSafe) (addr : UInt16) :
    AllPass (b.readCpuChecks addr) := by
  rw [readCpuChecks]
  split
  case isTrue => exact allPass_nil
  case isFalse low =>
    split
    case isTrue high => exact b.allPass_workRamChecks addr (UInt16.not_lt.mp low) high
    case isFalse high =>
      cases hprogram : b.program.isEmpty with
      | true => exact allPass_nil
      | false =>
        obtain ⟨least, limit⟩ := h.size_bounds hprogram
        rw [if_neg Bool.false_ne_true]
        refine AllPass.append ?_ ?_
        · exact b.circuit.allPass_programChecks (by omega) limit (UInt16.not_lt.mp high)
        · simpa using b.circuit.programOffset_lt least

/-- The program has the byte that a read selects. -/
theorem exists_readCpu? (h : b.IsSafe) (addr : UInt16) :
    ∃ value, b.readCpu? addr = some value := by
  rw [readCpu?]
  split
  · exact ⟨_, rfl⟩
  · split
    · exact ⟨_, rfl⟩
    · cases hprogram : b.program.isEmpty with
      | true => exact ⟨_, rfl⟩
      | false =>
        obtain ⟨least, -⟩ := h.size_bounds hprogram
        exact ⟨_, Array.getElem?_eq_getElem (b.circuit.programOffset_lt least)⟩

end IsSafe

end Board

/-! ## Reading an image -/

namespace Image

/-- The checks of reading an image. What is not reached is not checked. -/
def parseChecks (bytes : Array UInt8) : List Check :=
  let size := bytes.size
  let programSize := byteAt bytes 4 * 0x4000
  let patternSize := byteAt bytes 5 * 0x2000
  if size < 16 then []
  else
    .slice size 0 4 ::
      if bytes.extract 0 4 ≠ magic then []
      else
        [.index size 4, .fits .w64 programSize, .index size 5, .fits .w64 patternSize,
          .index size 6, .index size 7] ++
        if ((requirements bytes).take 5).any (!·.met) then []
        else
          [.fits .w64 (16 + programSize), .fits .w64 (16 + programSize + patternSize)] ++
          if size < payloadEnd bytes then []
          else
            [.slice size 16 (16 + programSize),
              .slice size (16 + programSize) (16 + programSize + patternSize)]

theorem allPass_parseChecks (bytes : Array UInt8) : AllPass (parseChecks bytes) := by
  have program := byteAt_lt bytes 4
  have patterns := byteAt_lt bytes 5
  rw [parseChecks]
  refine allPass_unless fun long ↦ allPass_cons.mpr ⟨?_, ?_⟩
  · rw [passes_slice]
    omega
  · refine allPass_unless fun _ ↦ AllPass.append ?_ ?_
    · simp only [allPass_cons, passes_index, passes_fits, allPass_nil, and_true, Width.limit]
      omega
    · refine allPass_unless fun _ ↦ AllPass.append ?_ ?_
      · simp only [allPass_cons, passes_fits, allPass_nil, and_true, Width.limit]
        omega
      · refine allPass_unless fun whole ↦ ?_
        rw [payloadEnd] at whole
        simp only [allPass_cons, passes_slice, allPass_nil, and_true]
        omega

end Image

/-! ## The slot -/

namespace Slot

/-- The checks of a read by the processor. -/
def readCpuChecks : Slot → UInt16 → List Check
  | empty, _ => []
  | holding board, addr => board.readCpuChecks addr

/-- The checks of a write by the processor. -/
def writeCpuChecks : Slot → UInt16 → UInt8 → List Check
  | empty, _, _ => []
  | holding board, addr, value => board.writeCpuChecks addr value

/-- The checks of a read by the picture chip. -/
def readPpuChecks : Slot → UInt16 → List Check
  | empty, _ => []
  | holding board, addr => board.readPpuChecks addr

/-- The checks of a write by the picture chip. -/
def writePpuChecks : Slot → UInt16 → List Check
  | empty, _ => []
  | holding board, addr => board.writePpuChecks addr

/-- The board in the slot, if there is one, is one that an image can ask for. -/
def IsSafe : Slot → Prop
  | empty => True
  | holding board => board.IsSafe

variable {s : Slot}

theorem isSafe_ofBytes {bytes : Array UInt8} (h : ofBytes bytes = .ok s) : s.IsSafe := by
  rw [ofBytes] at h
  cases parsed : Image.parse bytes with
  | error e =>
    rw [parsed] at h
    cases h
  | ok image =>
    cases made : Board.ofImage image with
    | error e =>
      rw [parsed] at h
      change (Board.ofImage image).bind _ = _ at h
      rw [made] at h
      cases h
    | ok board =>
      rw [parsed] at h
      change (Board.ofImage image).bind _ = _ at h
      rw [made] at h
      cases h
      exact Board.IsSafe.ofImage parsed made

namespace IsSafe

theorem writeCpu (h : s.IsSafe) (addr : UInt16) (value : UInt8) :
    (s.writeCpu addr value).IsSafe := by
  cases s with
  | empty => trivial
  | holding board => exact Board.IsSafe.writeCpu h addr value

theorem writePpu (h : s.IsSafe) (addr : UInt16) (value : UInt8) :
    (s.writePpu addr value).IsSafe := by
  cases s with
  | empty => trivial
  | holding board => exact Board.IsSafe.writePpu h addr value

theorem exists_readCpu? (h : s.IsSafe) (addr : UInt16) :
    ∃ value, s.readCpu? addr = some value := by
  cases s with
  | empty => exact ⟨_, rfl⟩
  | holding board => exact Board.IsSafe.exists_readCpu? h addr

theorem allPass_readCpuChecks (h : s.IsSafe) (addr : UInt16) : AllPass (s.readCpuChecks addr) := by
  cases s with
  | empty => exact allPass_nil
  | holding board => exact Board.IsSafe.allPass_readCpuChecks h addr

theorem allPass_writeCpuChecks (h : s.IsSafe) (addr : UInt16) (value : UInt8) :
    AllPass (s.writeCpuChecks addr value) := by
  cases s with
  | empty => exact allPass_nil
  | holding board => exact board.allPass_writeCpuChecks addr (Board.IsSafe.circuit h) value

theorem allPass_readPpuChecks (h : s.IsSafe) (addr : UInt16) : AllPass (s.readPpuChecks addr) := by
  cases s with
  | empty => exact allPass_nil
  | holding board => exact board.allPass_readPpuChecks addr (Board.IsSafe.patterns_lt h)

theorem allPass_writePpuChecks (h : s.IsSafe) (addr : UInt16) :
    AllPass (s.writePpuChecks addr) := by
  cases s with
  | empty => exact allPass_nil
  | holding board => exact board.allPass_writePpuChecks addr (Board.IsSafe.patterns_lt h)

end IsSafe

end Slot

end Famicom
