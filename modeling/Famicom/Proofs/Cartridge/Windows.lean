import Famicom.Proofs.Cartridge.SerialPort
import Famicom.Proofs.Cartridge.Format

/-!
# The windows of a board

What a board shows is read off its history: the accesses from both sides since it was made, oldest
first. The history gives the value selected last and, through `SerialBanks.effects`, the registers
of an MMC1 board; these give the bank behind each address, by number of chunks of 16 KiB or 8 KiB
and not by the size of a memory (`programBankAt`, `patternPlaceAt`); and the byte shown is the one
that the image had at that place.

The work memory of an MMC1 board is read off the same history, latest access first: a cell holds
what was last stored there at a time when the memory was connected.

## The invariant

A board follows its history (`Follows`) when its circuit is the one that the writes to the port
give, its program and its patterns are those of the image, and each cell of its work memory holds
what was last stored. An access is one step (`Follows.access`), and a run is an induction on the
history with its last access split off.
-/

namespace Famicom.Board

open SerialBanks (isPort)

/-- An access to a board, from the processor's bus or the picture chip's. -/
inductive Access where
  | readCpu (addr : UInt16)
  | writeCpu (addr : UInt16) (value : UInt8)
  | readPpu (addr : UInt16)
  | writePpu (addr : UInt16) (value : UInt8)
  deriving DecidableEq, Repr

/-- The board after an access. Reads leave it as it is. -/
def access (b : Board) : Access → Board
  | .readCpu _ | .readPpu _ => b
  | .writeCpu addr value => b.writeCpu addr value
  | .writePpu addr value => b.writePpu addr value

/-- The board after a history of accesses. -/
def accessAll (b : Board) (history : List Access) : Board := history.foldl access b

/-! ## Reading a history -/

/-- The write to the upper half of the processor's address space that an access is. -/
def Access.portWrite? : Access → Option (UInt16 × UInt8)
  | .writeCpu addr value => if 0x8000 ≤ addr then some (addr, value) else none
  | _ => none

/-- The writes to the upper half of the processor's address space. -/
def portWrites (history : List Access) : List (UInt16 × UInt8) :=
  history.filterMap Access.portWrite?

/-- The value last written to the upper half; zero before the first. -/
def selectedAt (history : List Access) : Nat :=
  ((portWrites history).getLast?).elim 0 fun w ↦ w.2.toNat

/-- The registers of an MMC1 board. -/
def registersAt (history : List Access) : BankRegister → Nat :=
  (SerialBanks.portEffects (portWrites history)).foldl SerialBanks.Effect.apply
    fun r ↦ if r = .control then 0b01100 else 0

/-- The work memory of an MMC1 board is connected. -/
def connectedAt (history : List Access) : Bool := registersAt history .program / 16 % 2 = 0

/-- What a cell of the work memory of an MMC1 board holds, the history given latest access first:
the byte last stored there while the memory was connected, and zero before the first. -/
def storedAt (cell : Nat) : List Access → UInt8
  | [] => 0
  | .writeCpu addr value :: earlier =>
    if 0x6000 ≤ addr ∧ addr < 0x8000 ∧ addr.toNat % 0x2000 = cell ∧ connectedAt earlier.reverse then
      value
    else storedAt cell earlier
  | _ :: earlier => storedAt cell earlier

/-- Which half of the upper half an address is in: zero below `$c000` and one from there on. -/
def halfOf (addr : UInt16) : Nat := addr.toNat / 0x4000 - 2

/-- The bank of 16 KiB behind an address of the upper half, for a program of so many chunks. -/
def programBankAt (kind : BoardKind) (chunks : Nat) (history : List Access) (addr : UInt16) : Nat :=
  match kind with
  | .nrom | .cnrom => halfOf addr % chunks
  | .uxrom => if addr < 0xc000 then selectedAt history % chunks else chunks - 1
  | .axrom => (2 * (selectedAt history % 8) + halfOf addr) % chunks
  | .mmc1 =>
    let select := registersAt history .program
    match registersAt history .control / 4 % 4 with
    | 0 | 1 => ((select &&& 14) + halfOf addr) % chunks
    | 2 => if addr < 0xc000 then 0 else (select &&& 15) % chunks
    | _ => if addr < 0xc000 then (select &&& 15) % chunks else chunks - 1

/-- The place of the byte behind an address of the upper half. -/
def programPlaceAt (kind : BoardKind) (chunks : Nat) (history : List Access) (addr : UInt16) :
    Nat :=
  0x4000 * programBankAt kind chunks history addr + addr.toNat % 0x4000

/-- The bank of 4 KiB that an MMC1 board selects for an address of the pattern area, before it is
folded into the banks there are: one for each half of the area, or both halves of 8 KiB at once. -/
def patternSelectAt (history : List Access) (addr : UInt16) : Nat :=
  match registersAt history .control / 16 % 2, decide (addr < 0x1000) with
  | 0, true => registersAt history .pattern0 &&& 30
  | 0, false => (registersAt history .pattern0 &&& 30) + 1
  | _, true => registersAt history .pattern0
  | _, false => registersAt history .pattern1

/-- The place of the byte behind an address of the pattern area, for patterns of so many chunks. -/
def patternPlaceAt (kind : BoardKind) (chunks : Nat) (history : List Access) (addr : UInt16) :
    Nat :=
  match kind with
  | .nrom | .uxrom | .axrom => addr.toNat % 0x2000
  | .cnrom => 0x2000 * (selectedAt history % chunks) + addr.toNat % 0x2000
  | .mmc1 => 0x1000 * (patternSelectAt history addr % (2 * chunks)) + addr.toNat % 0x1000

/-- The circuit of a kind, by its history. -/
def circuitAt (kind : BoardKind) (wiring : Mirroring) (history : List Access) : Circuit :=
  match kind with
  | .nrom => .nrom wiring
  | .mmc1 => .mmc1 (({} : SerialBanks).writeAll (portWrites history))
  | .uxrom => .uxrom wiring (.ofNat (selectedAt history))
  | .cnrom => .cnrom wiring (.ofNat (selectedAt history))
  | .axrom => .axrom (.ofNat (selectedAt history))

theorem portWrites_append (history : List Access) (a : Access) :
    portWrites (history ++ [a]) = portWrites history ++ a.portWrite?.toList := by
  rw [portWrites, List.filterMap_append]
  cases h : a.portWrite? <;> simp [portWrites, h]

theorem portWrites_append_of_none (history : List Access) {a : Access} (h : a.portWrite? = none) :
    portWrites (history ++ [a]) = portWrites history := by
  rw [portWrites_append, h, Option.toList_none, List.append_nil]

theorem selectedAt_lt (history : List Access) : selectedAt history < 256 := by
  rw [selectedAt]
  cases (portWrites history).getLast? with
  | none => exact Nat.zero_lt_succ _
  | some w => exact w.2.toNat_lt

/-- Only a write to the port moves the circuit. -/
theorem circuitAt_append_of_none (kind : BoardKind) (wiring : Mirroring) (history : List Access)
    {a : Access} (h : a.portWrite? = none) :
    circuitAt kind wiring (history ++ [a]) = circuitAt kind wiring history := by
  simp only [circuitAt, selectedAt, portWrites_append_of_none history h]

theorem circuitAt_append_write (kind : BoardKind) (wiring : Mirroring) (history : List Access)
    {addr : UInt16} (value : UInt8) (h : 0x8000 ≤ addr) :
    circuitAt kind wiring (history ++ [.writeCpu addr value]) =
      (circuitAt kind wiring history).write addr value := by
  have last : portWrites (history ++ [.writeCpu addr value])
      = portWrites history ++ [(addr, value)] := by
    rw [portWrites_append, Access.portWrite?, if_pos h, Option.toList_some]
  have selected : selectedAt (history ++ [.writeCpu addr value]) = value.toNat := by
    rw [selectedAt, last, List.getLast?_concat, Option.elim_some]
  cases kind with
  | nrom => rfl
  | mmc1 =>
    simp only [circuitAt, Circuit.write, last, SerialBanks.writeAll, List.foldl_append,
      List.foldl_cons, List.foldl_nil]
  | uxrom | cnrom | axrom => simp only [circuitAt, Circuit.write, selected, UInt8.ofNat_toNat]

theorem register_writeAll_portWrites (history : List Access) :
    (({} : SerialBanks).writeAll (portWrites history)).register = registersAt history := by
  have empty : SerialBanks.Holds {} [] := .nil rfl rfl
  rw [empty.register_writeAll, List.nil_append, registersAt]
  congr 1
  funext r
  cases r <;> rfl

theorem registersAt_lt (history : List Access) (r : BankRegister) : registersAt history r < 32 := by
  rw [← register_writeAll_portWrites]
  exact (SerialBanks.IsSound.powerOn.writeAll _).register_lt r

theorem workRamEnabled_circuitAt (wiring : Mirroring) (history : List Access) :
    (circuitAt .mmc1 wiring history).workRamEnabled = connectedAt history := by
  have program : (({} : SerialBanks).writeAll (portWrites history)).program =
      registersAt history .program := congrFun (register_writeAll_portWrites history) .program
  rw [circuitAt, Circuit.workRamEnabled, SerialBanks.workRamEnabled, program, connectedAt,
    Nat.testBit_eq_decide_div_mod_eq, ← decide_not, decide_eq_decide]
  omega

/-! ## Offsets are places -/

section Offset

variable {kind : BoardKind} {wiring : Mirroring} {chunks : Nat} (history : List Access)
  (addr : UInt16)

/-- Folding into whole chunks leaves the place within a chunk. -/
theorem mod_chunks (x chunk chunks : Nat) :
    x % (chunk * chunks) = chunk * (x / chunk % chunks) + x % chunk := by
  rw [Nat.mod_mul, Nat.add_comm]

theorem and_fourteen {n : Nat} (h : n < 32) : n &&& 14 = n % 16 / 2 * 2 := by
  revert n
  decide

theorem and_thirty {n : Nat} (h : n < 32) : n &&& 30 = n / 2 * 2 := by
  revert n
  decide

theorem programBankAt_lt (hchunks : 0 < chunks) :
    programBankAt kind chunks history addr < chunks := by
  have fold := fun n ↦ Nat.mod_lt n hchunks
  have last : chunks - 1 < chunks := Nat.sub_lt hchunks Nat.one_pos
  cases kind with
  | nrom | cnrom | axrom => exact fold _
  | uxrom =>
    rw [programBankAt]
    split <;> simp [fold, last]
  | mmc1 =>
    simp only [programBankAt]
    split
    · exact fold _
    · exact fold _
    · split <;> simp [fold, hchunks]
    · split <;> simp [fold, last]

/-- The bank of an MMC1 board, from its registers. -/
theorem programBank_writeAll (hupper : 0x8000 ≤ addr) (hchunks : 0 < chunks) :
    (({} : SerialBanks).writeAll (portWrites history)).programBank chunks addr =
      programBankAt .mmc1 chunks history addr := by
  have program : (({} : SerialBanks).writeAll (portWrites history)).program =
      registersAt history .program := congrFun (register_writeAll_portWrites history) .program
  have control : (({} : SerialBanks).writeAll (portWrites history)).control =
      registersAt history .control := congrFun (register_writeAll_portWrites history) .control
  have range := registersAt_lt history .program
  have half : (if addr < 0xc000 then 0 else 1) = halfOf addr := by
    have below := addr.toNat_lt
    have above : 0x8000 ≤ addr.toNat := hupper
    rw [halfOf]
    split
    case isTrue lower =>
      have : addr.toNat < 0xc000 := lower
      omega
    case isFalse upper =>
      have : ¬addr.toNat < 0xc000 := upper
      omega
  rw [SerialBanks.programBank, program, control, half, programBankAt]
  simp only [and_fourteen range, show registersAt history .program &&& 15
    = registersAt history .program % 16 from Nat.and_two_pow_sub_one_eq_mod _ 4]
  have mode : registersAt history .control / 4 % 4 < 4 := Nat.mod_lt _ (by decide)
  generalize registersAt history .control / 4 % 4 = arrangement at mode ⊢
  obtain rfl | rfl | rfl | rfl :
      arrangement = 0 ∨ arrangement = 1 ∨ arrangement = 2 ∨ arrangement = 3 := by omega
  · rfl
  · rfl
  · by_cases lower : addr < 0xc000 <;> simp [lower]
  · have last : (chunks - 1) % chunks = chunks - 1 :=
      Nat.mod_eq_of_lt (Nat.sub_lt hchunks Nat.one_pos)
    by_cases lower : addr < 0xc000 <;> simp [lower, last]

theorem programOffset_circuitAt (hupper : 0x8000 ≤ addr) (hchunks : 0 < chunks) :
    (circuitAt kind wiring history).programOffset (0x4000 * chunks) addr =
      programPlaceAt kind chunks history addr := by
  have above : 0x8000 ≤ addr.toNat := hupper
  have count := Circuit.bankCount_mul (show 0 < 0x4000 by decide) hchunks
  have selected : (UInt8.ofNat (selectedAt history)).toNat = selectedAt history :=
    Nat.mod_eq_of_lt (selectedAt_lt history)
  have straight : (addr.toNat - 0x8000) % (0x4000 * chunks) =
      0x4000 * (halfOf addr % chunks) + addr.toNat % 0x4000 := by
    rw [mod_chunks, show (addr.toNat - 0x8000) / 0x4000 = halfOf addr by rw [halfOf]; omega]
    omega
  cases kind with
  | nrom | cnrom => exact straight
  | uxrom =>
    have bank : programBankAt .uxrom chunks history addr < chunks :=
      programBankAt_lt history addr hchunks
    simp only [circuitAt, Circuit.programOffset, Circuit.programBankSize, count, selected,
      programPlaceAt]
    change (programBankAt .uxrom chunks history addr * 0x4000 + addr.toNat % 0x4000) %
      (0x4000 * chunks) = _
    rw [Nat.mul_comm, Nat.mod_eq_of_lt]
    omega
  | axrom =>
    simp only [circuitAt, Circuit.programOffset, selected, programPlaceAt, programBankAt]
    rw [mod_chunks, show (selectedAt history % 8 * 0x8000 + (addr.toNat - 0x8000)) / 0x4000
      = 2 * (selectedAt history % 8) + halfOf addr by rw [halfOf]; omega]
    omega
  | mmc1 =>
    simp only [circuitAt, Circuit.programOffset, Circuit.programBankSize, count,
      programBank_writeAll history addr hupper hchunks, programPlaceAt]
    rw [Nat.mul_comm]

/-- The bank of patterns of an MMC1 board, from its registers. -/
theorem patternBank_writeAll (banks : Nat) :
    (({} : SerialBanks).writeAll (portWrites history)).patternBank banks addr =
      patternSelectAt history addr % banks := by
  have pattern0 : (({} : SerialBanks).writeAll (portWrites history)).pattern0 =
      registersAt history .pattern0 :=
    congrFun (register_writeAll_portWrites history) .pattern0
  have pattern1 : (({} : SerialBanks).writeAll (portWrites history)).pattern1 =
      registersAt history .pattern1 :=
    congrFun (register_writeAll_portWrites history) .pattern1
  have control : (({} : SerialBanks).writeAll (portWrites history)).control =
      registersAt history .control := congrFun (register_writeAll_portWrites history) .control
  have split : registersAt history .control / 16 % 2 < 2 := Nat.mod_lt _ (by decide)
  simp only [SerialBanks.patternBank, pattern0, pattern1, control, patternSelectAt,
    and_thirty (registersAt_lt history .pattern0), Nat.testBit_eq_decide_div_mod_eq]
  change (if decide (registersAt history .control / 16 % 2 = 1) = true then _ else _) % _ = _
  match registersAt history .control / 16 % 2, split with
  | 0, _ | 1, _ => by_cases lower : addr < 0x1000 <;> simp [lower]

/-- The place behind an address of the pattern area, from the circuit. -/
theorem patternOffset_circuitAt (hchunks : 0 < chunks) :
    (circuitAt kind wiring history).patternOffset (0x2000 * chunks) addr =
      patternPlaceAt kind chunks history addr := by
  have selected : (UInt8.ofNat (selectedAt history)).toNat = selectedAt history :=
    Nat.mod_eq_of_lt (selectedAt_lt history)
  cases kind with
  | nrom | uxrom | axrom => rfl
  | cnrom =>
    simp only [circuitAt, Circuit.patternOffset, selected, patternPlaceAt,
      Circuit.bankCount_mul (show 0 < 0x2000 by decide) hchunks]
    rw [Nat.mul_comm]
  | mmc1 =>
    have count : Circuit.bankCount (0x2000 * chunks) 0x1000 = 2 * chunks := by
      rw [show 0x2000 * chunks = 0x1000 * (2 * chunks) by omega]
      exact Circuit.bankCount_mul (by decide) (by omega)
    simp only [circuitAt, Circuit.patternOffset, count, patternBank_writeAll, patternPlaceAt]
    rw [Nat.mul_comm]

theorem patternPlaceAt_lt (hchunks : 0 < chunks) :
    patternPlaceAt kind chunks history addr < 0x2000 * chunks := by
  have place := Nat.mod_lt addr.toNat (show 0 < 0x2000 by decide)
  cases kind with
  | nrom | uxrom | axrom =>
    rw [patternPlaceAt]
    omega
  | cnrom =>
    have bank := Nat.mod_lt (selectedAt history) hchunks
    rw [patternPlaceAt]
    omega
  | mmc1 =>
    have bank := Nat.mod_lt (patternSelectAt history addr) (show 0 < 2 * chunks by omega)
    rw [patternPlaceAt]
    omega

end Offset

/-! ## The invariant -/

/-- The board is where its history puts it: the circuit by its registers, the memories of the image
as they were, the work memory of an MMC1 board by what was stored there. -/
structure Follows (b : Board) (kind : BoardKind) (image : Image) (history : List Access) :
    Prop where
  circuit : b.circuit = circuitAt kind image.mirroring history
  program : b.program = image.program
  patterns : 0 < image.patterns.size →
    b.patterns.writable = false ∧ b.patterns.bytes = image.patterns
  workRam : kind = .mmc1 → ∃ ram, b.workRam = some ram ∧
    ∀ cell (h : cell < workRamSize), ram[cell] = storedAt cell history.reverse

theorem writeCpu_of_lt (b : Board) {addr : UInt16} (value : UInt8) (h : addr < 0x6000) :
    b.writeCpu addr value = b := if_pos h

theorem writeCpu_of_workRam (b : Board) {addr : UInt16} (value : UInt8) (hlow : 0x6000 ≤ addr)
    (hhigh : addr < 0x8000) : b.writeCpu addr value = b.writeWorkRam addr value := by
  rw [writeCpu, if_neg (UInt16.not_lt.mpr hlow), if_pos hhigh]

theorem writeCpu_of_ge (b : Board) {addr : UInt16} (value : UInt8) (h : 0x8000 ≤ addr) :
    b.writeCpu addr value = { b with circuit := b.circuit.write addr value } := by
  have above : 0x6000 ≤ addr := UInt16.le_trans (by decide) h
  rw [writeCpu, if_neg (UInt16.not_lt.mpr above), if_neg (UInt16.not_lt.mpr h)]

theorem PatternMemory.write_of_not_writable {m : PatternMemory} (h : m.writable = false)
    (offset : Nat) (value : UInt8) : m.write offset value = m := by
  obtain ⟨bytes, writable, nonempty⟩ := m
  exact if_neg (by simpa using h)

namespace Follows

variable {b : Board} {kind : BoardKind} {image : Image} {history : List Access}

/-- A board is made with nothing selected and its work memory blank. -/
theorem assemble (kind : BoardKind) (image : Image) :
    (Board.assemble kind image.program image.patterns image.mirroring image.hasWorkRam).Follows kind
      image [] := by
  refine ⟨?circuit, rfl, ?patterns, ?workRam⟩
  case circuit => cases kind <;> rfl
  case patterns =>
    intro some
    have rom : PatternMemory.ofImage image.patterns = ⟨image.patterns, false, some⟩ := dif_pos some
    simp [Board.assemble, rom]
  case workRam =>
    rintro rfl
    exact ⟨_, rfl, fun cell h ↦ Vector.getElem_replicate h⟩

theorem ofImage (known : BoardKind.ofMapper? image.mapper = some kind)
    (made : Board.ofImage image = .ok b) : b.Follows kind image [] := by
  rw [Board.ofImage, known] at made
  cases made
  exact assemble kind image

/-- An access that neither goes to the port nor stores anything leaves what is followed. -/
theorem of_frame {b' : Board} {a : Access} (h : b.Follows kind image history)
    (circuit : b'.circuit = b.circuit) (program : b'.program = b.program)
    (patterns : 0 < image.patterns.size → b'.patterns = b.patterns)
    (workRam : b'.workRam = b.workRam) (port : a.portWrite? = none)
    (stored : ∀ cell, storedAt cell (a :: history.reverse) = storedAt cell history.reverse) :
    b'.Follows kind image (history ++ [a]) where
  circuit := by rw [circuit, h.circuit, circuitAt_append_of_none _ _ _ port]
  program := program.trans h.program
  patterns some := by
    rw [patterns some]
    exact h.patterns some
  workRam mmc1 := by
    simp only [workRam, List.reverse_append, List.reverse_singleton, List.singleton_append, stored]
    exact h.workRam mmc1

theorem storedAt_of_outside {addr : UInt16} {value : UInt8} (cell : Nat) (earlier : List Access)
    (h : ¬(0x6000 ≤ addr ∧ addr < 0x8000)) :
    storedAt cell (.writeCpu addr value :: earlier) = storedAt cell earlier :=
  if_neg fun inside ↦ h ⟨inside.1, inside.2.1⟩

/-- A store in work memory changes the cell behind the address while the memory is connected. -/
theorem writeWorkRam (h : b.Follows kind image history) {addr : UInt16} (value : UInt8)
    (low : 0x6000 ≤ addr) (high : addr < 0x8000) :
    (b.writeWorkRam addr value).Follows kind image (history ++ [.writeCpu addr value]) where
  circuit := by
    have port : (Access.writeCpu addr value).portWrite? = none :=
      if_neg (UInt16.not_le.mpr high)
    rw [circuitAt_append_of_none _ _ _ port, ← h.circuit]
    rfl
  program := h.program
  patterns := h.patterns
  workRam := by
    intro mmc1
    obtain ⟨ram, holding, cells⟩ := h.workRam mmc1
    have enabled : b.circuit.workRamEnabled = connectedAt history := by
      rw [h.circuit, mmc1, workRamEnabled_circuitAt]
    have written : (b.writeWorkRam addr value).workRam =
        if connectedAt history then
          some (ram.set (workRamCell addr) value (workRamCell_lt addr))
        else some ram := by
      change (if b.circuit.workRamEnabled then b.workRam.map _ else b.workRam) = _
      rw [enabled, holding, Option.map_some]
    simp only [List.reverse_append, List.reverse_singleton, List.singleton_append, storedAt,
      List.reverse_reverse]
    cases connected : connectedAt history with
    | false =>
      refine ⟨ram, by rw [written, connected]; rfl, fun cell hcell ↦ ?_⟩
      rw [if_neg (by simp)]
      exact cells cell hcell
    | true =>
      refine ⟨_, by rw [written, connected]; rfl, fun cell hcell ↦ ?_⟩
      rw [Vector.getElem_set]
      by_cases here : workRamCell addr = cell
      · rw [if_pos here, if_pos ⟨low, high, here, rfl⟩]
      · rw [if_neg here, if_neg fun hit ↦ here hit.2.2.1]
        exact cells cell hcell

theorem writeCpu (h : b.Follows kind image history) (addr : UInt16) (value : UInt8) :
    (b.writeCpu addr value).Follows kind image (history ++ [.writeCpu addr value]) := by
  by_cases high : addr < 0x8000
  · have port : (Access.writeCpu addr value).portWrite? = none := if_neg (UInt16.not_le.mpr high)
    by_cases low : addr < 0x6000
    · rw [writeCpu_of_lt b value low]
      exact h.of_frame rfl rfl (fun _ ↦ rfl) rfl port fun cell ↦
        storedAt_of_outside cell _ fun inside ↦ UInt16.not_lt.mpr inside.1 low
    · have above : 0x6000 ≤ addr := UInt16.not_lt.mp low
      rw [writeCpu_of_workRam b value above high]
      exact h.writeWorkRam value above high
  · have upper : 0x8000 ≤ addr := UInt16.not_lt.mp high
    rw [writeCpu_of_ge b value upper]
    refine ⟨?circuit, h.program, h.patterns, fun mmc1 ↦ ?workRam⟩
    case circuit => rw [circuitAt_append_write _ _ _ _ upper, ← h.circuit]
    case workRam =>
      simp only [List.reverse_append, List.reverse_singleton, List.singleton_append,
        storedAt_of_outside _ _ fun inside ↦ high inside.2]
      exact h.workRam mmc1

theorem writePpu (h : b.Follows kind image history) (addr : UInt16) (value : UInt8) :
    (b.writePpu addr value).Follows kind image (history ++ [.writePpu addr value]) := by
  refine h.of_frame ?_ ?_ ?_ ?_ rfl fun cell ↦ rfl
  · rw [Board.writePpu]
    split <;> rfl
  · rw [Board.writePpu]
    split <;> rfl
  · intro some
    rw [Board.writePpu]
    split
    · exact PatternMemory.write_of_not_writable (h.patterns some).1 _ _
    · rfl
  · rw [Board.writePpu]
    split <;> rfl

/-- One access. -/
theorem access (h : b.Follows kind image history) (a : Access) :
    (b.access a).Follows kind image (history ++ [a]) := by
  cases a with
  | readCpu addr | readPpu addr =>
    exact h.of_frame rfl rfl (fun _ ↦ rfl) rfl rfl fun cell ↦ rfl
  | writeCpu addr value => exact h.writeCpu addr value
  | writePpu addr value => exact h.writePpu addr value

/-- A whole history. -/
theorem accessAll (h : b.Follows kind image []) (history : List Access) :
    (b.accessAll history).Follows kind image history := by
  induction history using List.reverseRecOn with
  | nil => exact h
  | append_singleton history a ih =>
    rw [Board.accessAll, List.foldl_append]
    exact ih.access a

/-! ## What is shown -/

theorem readCpu?_upper (h : b.Follows kind image history) {chunks : Nat} (hchunks : 0 < chunks)
    (size : image.program.size = 0x4000 * chunks) {addr : UInt16} (upper : 0x8000 ≤ addr) :
    b.readCpu? addr = image.program[programPlaceAt kind chunks history addr]? := by
  have full : image.program.isEmpty = false := by
    rw [Array.isEmpty_eq_false_iff, ← Array.size_pos_iff, size]
    omega
  have above : 0x6000 ≤ addr := UInt16.le_trans (by decide) upper
  rw [readCpu?, if_neg (UInt16.not_lt.mpr above), if_neg (UInt16.not_lt.mpr upper), h.program, full,
    if_neg Bool.false_ne_true, size, h.circuit,
    programOffset_circuitAt history addr upper hchunks]

theorem readPpu_pattern (h : b.Follows kind image history) {chunks : Nat} (hchunks : 0 < chunks)
    (size : image.patterns.size = 0x2000 * chunks) {addr : UInt16}
    (area : addr.toNat % 0x4000 < 0x2000) :
    image.patterns[patternPlaceAt kind chunks history addr]? = some (b.readPpu addr) := by
  have inside : patternPlaceAt kind chunks history addr < 0x2000 * chunks :=
    patternPlaceAt_lt history addr hchunks
  obtain ⟨-, bytes⟩ := h.patterns (by omega)
  have place : b.circuit.patternOffset b.patterns.bytes.size addr =
      patternPlaceAt kind chunks history addr := by
    rw [h.circuit, bytes, size, patternOffset_circuitAt history addr hchunks]
  have pattern : isPattern addr = true := decide_eq_true area
  rw [readPpu, if_pos pattern, place, PatternMemory.read]
  simp only [bytes, size, Nat.mod_eq_of_lt inside]
  exact Array.getElem?_eq_getElem _

theorem readCpu?_workRam (h : b.Follows .mmc1 image history) {addr : UInt16}
    (low : 0x6000 ≤ addr) (high : addr < 0x8000) :
    b.readCpu? addr = some (if connectedAt history then
      storedAt (addr.toNat % 0x2000) history.reverse else openBus addr) := by
  obtain ⟨ram, holding, cells⟩ := h.workRam rfl
  rw [readCpu?, if_neg (UInt16.not_lt.mpr low), if_pos high, readWorkRam, holding]
  simp only [h.circuit, workRamEnabled_circuitAt, cells]
  rfl

end Follows

/-- A board shows what its history selects. For an image with at least one chunk of program, and
after any accesses from both sides, a read of the upper half gives the byte of the program at the
place that the history gives, and there is one; so does a read of pattern ROM with the patterns.
Neither memory has changed. An MMC1 board shows in its work memory what was last stored there while
it was connected, and the open bus while it is not. -/
theorem windows_follow_history {bytes : Array UInt8} {image : Image} {kind : BoardKind} {b : Board}
    (parsed : Image.parse bytes = .ok image)
    (known : BoardKind.ofMapper? image.mapper = some kind) (made : Board.ofImage image = .ok b)
    (nonempty : 0 < Image.byteAt bytes 4) (history : List Access) :
    (∀ addr, 0x8000 ≤ addr →
      ∃ value, (b.accessAll history).readCpu? addr = some value ∧
        image.program[programPlaceAt kind (Image.byteAt bytes 4) history addr]? = some value) ∧
    (0 < Image.byteAt bytes 5 → ∀ addr, addr.toNat % 0x4000 < 0x2000 →
      image.patterns[patternPlaceAt kind (Image.byteAt bytes 5) history addr]? =
        some ((b.accessAll history).readPpu addr)) ∧
    (b.accessAll history).program = image.program ∧
    (0 < Image.byteAt bytes 5 → (b.accessAll history).patterns.bytes = image.patterns) ∧
    (kind = .mmc1 → ∀ addr, 0x6000 ≤ addr → addr < 0x8000 →
      (b.accessAll history).readCpu? addr =
        some (if connectedAt history then storedAt (addr.toNat % 0x2000) history.reverse
          else openBus addr)) := by
  obtain ⟨programSize, patternSize⟩ := Image.size_of_parse parsed
  have follows := (Follows.ofImage known made).accessAll history
  refine ⟨fun addr upper ↦ ?_, fun hpatterns addr area ↦ ?_, follows.program,
    fun hpatterns ↦ (follows.patterns (by omega)).2, ?_⟩
  · have inside : programPlaceAt kind (Image.byteAt bytes 4) history addr < image.program.size := by
      have bank : programBankAt kind _ history addr < Image.byteAt bytes 4 :=
        programBankAt_lt history addr nonempty
      rw [programPlaceAt, programSize]
      omega
    refine ⟨_, ?_, Array.getElem?_eq_getElem inside⟩
    rw [follows.readCpu?_upper nonempty programSize upper, Array.getElem?_eq_getElem inside]
  · exact follows.readPpu_pattern hpatterns patternSize area
  · rintro rfl addr low high
    exact follows.readCpu?_workRam low high

/-- Of three chunks, number 4 is number 1 again. It shows at the bottom of the upper half, and the
last chunk stays at the top. -/
theorem windows_follow_history_uxrom :
    let b := (assemble .uxrom Image.numberedChunks Image.countedPatterns .vertical false).accessAll
      [.writeCpu 0xfff0 2, .readPpu 0x2000, .writeCpu 0x8000 4]
    b.readCpu? 0x8123 = some 1 ∧ b.readCpu? 0xc123 = some 2 := by
  have chunks : Image.byteAt Image.numberedLayout.encode 4 = 3 :=
    Image.numberedLayout.byteAt_encode (by decide)
  have known : BoardKind.ofMapper? Image.numberedLayout.image.mapper = some .uxrom := rfl
  have made : Board.ofImage Image.numberedLayout.image =
      .ok (assemble .uxrom Image.numberedChunks Image.countedPatterns .vertical false) := by
    rw [Board.ofImage, known, Image.program_numberedLayout, Image.patterns_numberedLayout]
    rfl
  obtain ⟨shown, -⟩ := windows_follow_history Image.numberedLayout.parse_encode known made
    (by rw [chunks]; decide) [.writeCpu 0xfff0 2, .readPpu 0x2000, .writeCpu 0x8000 4]
  rw [chunks, Image.program_numberedLayout] at shown
  obtain ⟨low, hlow, bottom⟩ := shown 0x8123 (by decide)
  obtain ⟨high, hhigh, top⟩ := shown 0xc123 (by decide)
  rw [show programPlaceAt .uxrom 3 _ 0x8123 = 0x4123 by decide,
    Image.getElem?_numberedChunks (by decide)] at bottom
  rw [show programPlaceAt .uxrom 3 _ 0xc123 = 0x8123 by decide,
    Image.getElem?_numberedChunks (by decide)] at top
  exact ⟨hlow.trans bottom.symm, hhigh.trans top.symm⟩

end Famicom.Board
