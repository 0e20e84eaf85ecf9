import Famicom.Proofs.Safety.Cartridge
import Famicom.Proofs.Cartridge.Windows

/-!
# Cartridges of any size

An image gives a board memories of whole chunks. A board can be assembled from memories of any
other size as well: of no bytes, of fewer than a bank, of some banks and a part of one. It counts
the whole banks, at least one of them, selects a place in one of these, and folds the place into
the memory, as if the memory were repeated without end (`Board.repeatedPlaceAt`,
`Board.repeatedPatternPlaceAt`). So an access never misses its memory, whatever was selected before.

The program of an MMC1 board is the exception. Its banks are counted in the same way, but the place
is not folded. A program shorter than one bank lacks the bytes at the end of that bank, and a read
that selects one of them fails (`Board.Lacks`). Nothing else does.

What every access keeps is the kind of the board, the size of its program and the ranges of its
serial port (`Board.Carries`). Whether a read fails depends on no more than that.
-/

namespace Famicom

open Check

/-! ## Places in a repeated memory -/

namespace Board

/-- The address selects a byte that the program lacks: a place behind the end of the only bank of an
MMC1 board. -/
def Lacks (kind : BoardKind) (size : Nat) (addr : UInt16) : Prop :=
  kind = .mmc1 ∧ 0x8000 ≤ addr ∧ 0 < size ∧ size ≤ addr.toNat % 0x4000

instance (kind : BoardKind) (size : Nat) (addr : UInt16) : Decidable (Lacks kind size addr) :=
  inferInstanceAs (Decidable (_ ∧ _ ∧ _ ∧ _))

/-- The place behind an address of the upper half, for a program of any size, before it is folded
into that size. -/
def repeatedPlaceAt (kind : BoardKind) (size : Nat) (history : List Access) (addr : UInt16) : Nat :=
  match kind with
  | .nrom | .cnrom => addr.toNat - 0x8000
  | .axrom => 0x8000 * (selectedAt history % 8) + (addr.toNat - 0x8000)
  | .uxrom | .mmc1 => programPlaceAt kind (Circuit.bankCount size 0x4000) history addr

/-- The place behind an address of the pattern area, for patterns of any size, before it is folded
into that size. -/
def repeatedPatternPlaceAt (kind : BoardKind) (size : Nat) (history : List Access) (addr : UInt16) :
    Nat :=
  match kind with
  | .nrom | .uxrom | .axrom => addr.toNat % 0x2000
  | .cnrom =>
    0x2000 * (selectedAt history % Circuit.bankCount size 0x2000) + addr.toNat % 0x2000
  | .mmc1 =>
    0x1000 * (patternSelectAt history addr % Circuit.bankCount size 0x1000) + addr.toNat % 0x1000

end Board

namespace Circuit

variable {size : Nat} {addr : UInt16}

/-- Only the program of an MMC1 board can be missed, and only if it has less than a bank. -/
theorem programOffset_lt_iff (c : Circuit) (hsize : 0 < size) (hupper : 0x8000 ≤ addr) :
    c.programOffset size addr < size ↔ ¬Board.Lacks c.kind size addr := by
  by_cases hbank : 0x4000 ≤ size
  · have inBank := Nat.mod_lt addr.toNat (show 0 < 0x4000 by decide)
    refine iff_of_true (c.programOffset_lt hbank) fun ⟨_, _, _, behind⟩ ↦ ?_
    omega
  · cases c with
    | nrom | uxrom | cnrom | axrom =>
      exact iff_of_true (Nat.mod_lt _ hsize) fun lacks ↦ BoardKind.noConfusion lacks.1
    | mmc1 serial =>
      have one : bankCount size programBankSize = 1 := by
        rw [bankCount, programBankSize, Nat.div_eq_of_lt (Nat.lt_of_not_le hbank)]
        rfl
      have first : serial.programBank 1 addr = 0 := Nat.mod_one _
      rw [programOffset, one, first, Nat.zero_mul, Nat.zero_add, programBankSize, ← Nat.not_le]
      exact not_congr ⟨fun behind ↦ ⟨rfl, hupper, hsize, behind⟩, fun lacks ↦ lacks.2.2.2⟩

end Circuit

namespace Board

variable {kind : BoardKind} {wiring : Mirroring} {size : Nat} {addr : UInt16}

theorem not_lacks_of_lt (h : addr < 0x8000) : ¬Lacks kind size addr :=
  fun lacks ↦ UInt16.not_lt.mpr lacks.2.1 h

/-- The place is folded, or lies within the program as it is. -/
theorem programOffset_eq_mod (history : List Access) (hsize : 0 < size) (hupper : 0x8000 ≤ addr)
    (hbyte : ¬Lacks kind size addr) :
    (circuitAt kind wiring history).programOffset size addr =
      repeatedPlaceAt kind size history addr % size := by
  have selected : (UInt8.ofNat (selectedAt history)).toNat = selectedAt history :=
    Nat.mod_eq_of_lt (selectedAt_lt history)
  cases kind with
  | nrom | cnrom => rfl
  | uxrom | axrom =>
    simp only [circuitAt, Circuit.programOffset, Circuit.programBankSize, selected]
    rw [Nat.mul_comm]
    rfl
  | mmc1 =>
    have banks := Circuit.bankCount_pos size 0x4000
    -- Nothing folds this place, so it has to lie within the program as it is.
    have place : (circuitAt .mmc1 wiring history).programOffset size addr =
        programPlaceAt .mmc1 (Circuit.bankCount size 0x4000) history addr := by
      simp only [circuitAt, Circuit.programOffset, Circuit.programBankSize, programPlaceAt,
        programBank_writeAll history addr hupper banks]
      rw [Nat.mul_comm]
    change _ = programPlaceAt .mmc1 (Circuit.bankCount size 0x4000) history addr % size
    rw [← place, Nat.mod_eq_of_lt]
    exact (Circuit.programOffset_lt_iff _ hsize hupper).mpr hbyte

theorem patternOffset_eq (history : List Access) (size : Nat) (addr : UInt16) :
    (circuitAt kind wiring history).patternOffset size addr =
      repeatedPatternPlaceAt kind size history addr := by
  have selected : (UInt8.ofNat (selectedAt history)).toNat = selectedAt history :=
    Nat.mod_eq_of_lt (selectedAt_lt history)
  cases kind with
  | nrom | uxrom | axrom => rfl
  | cnrom =>
    simp only [circuitAt, Circuit.patternOffset, selected, repeatedPatternPlaceAt]
    rw [Nat.mul_comm]
  | mmc1 =>
    simp only [circuitAt, Circuit.patternOffset, patternBank_writeAll, repeatedPatternPlaceAt]
    rw [Nat.mul_comm]

/-! ## One access -/

/-- What a board carries through every access: its kind, a serial port within its ranges, a program
of one size, and patterns of a size that a register holds. -/
structure Carries (b : Board) (kind : BoardKind) (size : Nat) : Prop where
  kind : b.circuit.kind = kind
  circuit : b.circuit.IsSound
  program : b.program.size = size
  patterns : b.patterns.bytes.size < Width.w64.limit

theorem kind_write (c : Circuit) (addr : UInt16) (value : UInt8) :
    (c.write addr value).kind = c.kind := by
  cases c <;> rfl

namespace Carries

variable {b : Board}

theorem assemble (kind : BoardKind) (program patterns : Array UInt8)
    (hpatterns : patterns.size < Width.w64.limit) (wiring : Mirroring) (withWorkRam : Bool) :
    (assemble kind program patterns wiring withWorkRam).Carries kind program.size where
  kind := by cases kind <;> rfl
  circuit := Circuit.isSound_powerOn wiring kind
  program := rfl
  patterns := Nat.lt_of_le_of_lt (PatternMemory.size_ofImage_le patterns)
    (Nat.max_lt.mpr ⟨by decide, hpatterns⟩)

theorem access (h : b.Carries kind size) (a : Access) : (b.access a).Carries kind size := by
  cases a with
  | readCpu addr | readPpu addr => exact h
  | writeCpu addr value =>
    change (b.writeCpu addr value).Carries kind size
    rw [writeCpu]
    split
    · exact h
    · split
      · exact ⟨h.kind, h.circuit, h.program, h.patterns⟩
      · exact ⟨(kind_write _ _ _).trans h.kind, h.circuit.write addr value, h.program, h.patterns⟩
  | writePpu addr value =>
    change (b.writePpu addr value).Carries kind size
    rw [writePpu]
    split
    · exact ⟨h.kind, h.circuit, h.program, by simpa using h.patterns⟩
    · exact ⟨h.kind, h.circuit, h.program, h.patterns⟩

theorem accessAll (h : b.Carries kind size) (history : List Access) :
    (b.accessAll history).Carries kind size := by
  induction history generalizing b with
  | nil => exact h
  | cons a rest ih => exact ih (h.access a)

theorem isEmpty_iff (h : b.Carries kind size) : b.program.isEmpty = true ↔ size = 0 := by
  rw [Array.isEmpty_iff_size_eq_zero, h.program]

/-- A read of the processor passes all its checks, unless it selects a byte that is lacking. -/
theorem allPass_readCpuChecks_iff (h : b.Carries kind size) (hlimit : size < Width.w64.limit)
    (addr : UInt16) : AllPass (b.readCpuChecks addr) ↔ ¬Lacks kind size addr := by
  rw [readCpuChecks]
  split
  case isTrue low =>
    exact iff_of_true allPass_nil (not_lacks_of_lt (UInt16.lt_trans low (by decide)))
  case isFalse low =>
    split
    case isTrue high =>
      exact iff_of_true (b.allPass_workRamChecks addr (UInt16.not_lt.mp low) high)
        (not_lacks_of_lt high)
    case isFalse high =>
      have upper := UInt16.not_lt.mp high
      split
      case isTrue empty =>
        exact iff_of_true allPass_nil fun lacks ↦ Nat.ne_of_gt lacks.2.2.1 (h.isEmpty_iff.mp empty)
      case isFalse full =>
        have pos : 0 < size := Nat.pos_of_ne_zero fun zero ↦ full (h.isEmpty_iff.mpr zero)
        rw [h.program, allPass_append, allPass_singleton, passes_index,
          Circuit.programOffset_lt_iff _ pos upper, h.kind]
        exact and_iff_right (b.circuit.allPass_programChecks pos hlimit upper)

/-- A read of the processor gives a byte, unless it selects one that is lacking. -/
theorem readCpu?_eq_none_iff (h : b.Carries kind size) (addr : UInt16) :
    b.readCpu? addr = none ↔ Lacks kind size addr := by
  rw [readCpu?]
  split
  case isTrue low =>
    exact iff_of_false (Option.some_ne_none _) (not_lacks_of_lt (UInt16.lt_trans low (by decide)))
  case isFalse =>
    split
    case isTrue high => exact iff_of_false (Option.some_ne_none _) (not_lacks_of_lt high)
    case isFalse high =>
      split
      case isTrue empty =>
        exact iff_of_false (Option.some_ne_none _) fun lacks ↦ Nat.ne_of_gt lacks.2.2.1 (h.isEmpty_iff.mp empty)
      case isFalse full =>
        have pos : 0 < size := Nat.pos_of_ne_zero fun zero ↦ full (h.isEmpty_iff.mpr zero)
        rw [Array.getElem?_eq_none_iff, ← Nat.not_lt, h.program,
          Circuit.programOffset_lt_iff _ pos (UInt16.not_lt.mp high), h.kind, not_not]

end Carries

end Board

/-! ## A run -/

namespace Slot

open Board (Access Lacks Carries Follows repeatedPlaceAt repeatedPatternPlaceAt)

/-- The slot after an access. Reads leave it as it is. -/
def access (s : Slot) : Access → Slot
  | .readCpu _ | .readPpu _ => s
  | .writeCpu addr value => s.writeCpu addr value
  | .writePpu addr value => s.writePpu addr value

/-- The slot after a history of accesses. -/
def accessAll (s : Slot) (history : List Access) : Slot := history.foldl access s

/-- The checks of an access. -/
def accessChecks (s : Slot) : Access → List Check
  | .readCpu addr => s.readCpuChecks addr
  | .writeCpu addr value => s.writeCpuChecks addr value
  | .readPpu addr => s.readPpuChecks addr
  | .writePpu addr _ => s.writePpuChecks addr

/-- The checks of a history of accesses, each at the slot that it meets. -/
def runChecks (s : Slot) : List Access → List Check
  | [] => []
  | a :: rest => s.accessChecks a ++ (s.access a).runChecks rest

theorem access_holding (b : Board) (a : Access) : (holding b).access a = holding (b.access a) := by
  cases a <;> rfl

theorem accessAll_holding (b : Board) (history : List Access) :
    (holding b).accessAll history = holding (b.accessAll history) := by
  induction history generalizing b with
  | nil => rfl
  | cons a rest ih =>
    change ((holding b).access a).accessAll rest = _
    rw [access_holding, ih]
    rfl

/-- Nothing is checked where there is no board. -/
theorem runChecks_empty (history : List Access) : empty.runChecks history = [] := by
  induction history with
  | nil => rfl
  | cons a rest ih =>
    cases a with
    | readCpu addr | readPpu addr => exact ih
    | writeCpu addr value | writePpu addr value => exact ih

section

variable {b : Board} {kind : BoardKind} {size : Nat}

/-- One access. -/
theorem allPass_accessChecks_iff (h : b.Carries kind size) (hlimit : size < Width.w64.limit)
    (a : Access) :
    AllPass ((holding b).accessChecks a) ↔ ∀ addr, a = .readCpu addr → ¬Lacks kind size addr := by
  cases a with
  | readCpu addr =>
    refine (h.allPass_readCpuChecks_iff hlimit addr).trans ⟨?_, fun hbyte ↦ hbyte addr rfl⟩
    rintro hbyte _ ⟨⟩
    exact hbyte
  | writeCpu addr value => exact iff_of_true (b.allPass_writeCpuChecks addr h.circuit value) nofun
  | readPpu addr => exact iff_of_true (b.allPass_readPpuChecks addr h.patterns) nofun
  | writePpu addr value => exact iff_of_true (b.allPass_writePpuChecks addr h.patterns) nofun

/-- A run of accesses. -/
theorem allPass_runChecks_holding_iff (h : b.Carries kind size) (hlimit : size < Width.w64.limit)
    (history : List Access) :
    AllPass ((holding b).runChecks history) ↔
      ∀ addr, Access.readCpu addr ∈ history → ¬Lacks kind size addr := by
  induction history generalizing b with
  | nil => exact iff_of_true allPass_nil fun _ hmem ↦ absurd hmem List.not_mem_nil
  | cons a rest ih =>
    -- The rest is met by the board after `a`, which lacks the same bytes.
    rw [runChecks, allPass_append, allPass_accessChecks_iff h hlimit, access_holding,
      ih (h.access a), ← forall_and]
    refine forall_congr' fun addr ↦ ?_
    rw [List.mem_cons, or_imp, eq_comm]

end

/-! ## What is read -/

/-- The byte of a program, repeated without end, that an address of the upper half selects. -/
theorem readCpu?_accessAll (kind : BoardKind) (program patterns : Array UInt8)
    (wiring : Mirroring) (withWorkRam : Bool) (history : List Access) {addr : UInt16}
    (hupper : 0x8000 ≤ addr) (hsize : 0 < program.size) (hbyte : ¬Lacks kind program.size addr) :
    ((holding (.assemble kind program patterns wiring withWorkRam)).accessAll history).readCpu? addr
      = program[repeatedPlaceAt kind program.size history addr % program.size]? := by
  have follows :=
    (Follows.assemble kind ⟨program, patterns, wiring, withWorkRam, 0⟩).accessAll history
  have above : 0x6000 ≤ addr := UInt16.le_trans (by decide) hupper
  have full : program.isEmpty = false :=
    Array.isEmpty_eq_false_iff.mpr (Array.size_pos_iff.mp hsize)
  rw [accessAll_holding, readCpu?, Board.readCpu?, if_neg (UInt16.not_lt.mpr above),
    if_neg (UInt16.not_lt.mpr hupper), follows.program, follows.circuit, full,
    if_neg Bool.false_ne_true, Board.programOffset_eq_mod history hsize hupper hbyte]

/-- The byte of pattern ROM, repeated without end, that an address of the pattern area selects. -/
theorem readPpu_accessAll (kind : BoardKind) (program patterns : Array UInt8)
    (wiring : Mirroring) (withWorkRam : Bool) (history : List Access) {addr : UInt16}
    (harea : addr.toNat % 0x4000 < 0x2000) (hsize : 0 < patterns.size) :
    some (((holding (.assemble kind program patterns wiring withWorkRam)).accessAll
        history).readPpu addr) =
      patterns[repeatedPatternPlaceAt kind patterns.size history addr % patterns.size]? := by
  have follows :=
    (Follows.assemble kind ⟨program, patterns, wiring, withWorkRam, 0⟩).accessAll history
  obtain ⟨-, bytes⟩ := follows.patterns hsize
  have pattern : Board.isPattern addr = true := decide_eq_true harea
  rw [accessAll_holding, readPpu, Board.readPpu, if_pos pattern, follows.circuit,
    Board.patternOffset_eq, PatternMemory.read]
  simp only [bytes]
  exact (Array.getElem?_eq_getElem _).symm

/-- Accesses to a board never miss its memories, of whatever size these are and whatever the program
did before, but for one case: a read of the processor that selects a byte behind the end of an MMC1
program shorter than a bank. Such a read fails, after any history, and nothing else fails: neither
another read, nor a write, nor anything in an empty slot. What a read gives is the byte at the place
that the history selects, folded into the size of the memory. The sizes are such as a register
holds. -/
theorem accesses_complete_iff (program patterns : Array UInt8)
    (hprogram : program.size < Width.w64.limit) (hpatterns : patterns.size < Width.w64.limit)
    (kind : BoardKind) (wiring : Mirroring) (withWorkRam : Bool) (history : List Access) :
    let fresh := holding (.assemble kind program patterns wiring withWorkRam)
    AllPass (empty.runChecks history) ∧
      (AllPass (fresh.runChecks history) ↔
        ∀ addr, Access.readCpu addr ∈ history → ¬Lacks kind program.size addr) ∧
      (∀ addr, (fresh.accessAll history).readCpu? addr = none ↔ Lacks kind program.size addr) ∧
      (∀ addr, 0x8000 ≤ addr → 0 < program.size → ¬Lacks kind program.size addr →
        (fresh.accessAll history).readCpu? addr =
          program[repeatedPlaceAt kind program.size history addr % program.size]?) ∧
      ∀ addr, addr.toNat % 0x4000 < 0x2000 → 0 < patterns.size →
        some ((fresh.accessAll history).readPpu addr) =
          patterns[repeatedPatternPlaceAt kind patterns.size history addr % patterns.size]? := by
  have carries := Carries.assemble kind program patterns hpatterns wiring withWorkRam
  refine ⟨?nothing, allPass_runChecks_holding_iff carries hprogram history, ?fails, ?program,
    ?patterns⟩
  case nothing =>
    rw [runChecks_empty]
    exact allPass_nil
  case fails =>
    intro addr
    rw [accessAll_holding]
    exact (carries.accessAll history).readCpu?_eq_none_iff addr
  case program =>
    intro addr hupper hsize hbyte
    exact readCpu?_accessAll kind program patterns wiring withWorkRam history hupper hsize hbyte
  case patterns =>
    intro addr harea hsize
    exact readPpu_accessAll kind program patterns wiring withWorkRam history harea hsize

/-- A program of one byte and patterns of three, on a board that switches banks of 16 KiB. -/
theorem accesses_complete_iff_threePatterns :
    let history : List Access := [.writeCpu 0x8000 7, .readCpu 0xffff, .readPpu 0x1fff]
    let fresh := holding (.assemble .uxrom #[0xea] #[0x11, 0x22, 0x33] .vertical false)
    AllPass (fresh.runChecks history) ∧
      (fresh.accessAll history).readCpu? 0xbfff = some 0xea ∧
      (fresh.accessAll history).readPpu 0x1fff = 0x22 := by
  intro history fresh
  obtain ⟨-, checks, -, program, patterns⟩ :=
    accesses_complete_iff #[0xea] #[0x11, 0x22, 0x33] (by decide) (by decide) .uxrom .vertical false
      history
  refine ⟨checks.mpr fun addr _ ↦ nofun, ?_, ?_⟩
  · exact (program 0xbfff (by decide) (by decide) nofun).trans (by decide)
  · exact Option.some.inj ((patterns 0x1fff (by decide) (by decide)).trans (by decide))

/-- Half a bank in an MMC1 board: the other half of the bank is not there, and does not show the
first half again. -/
theorem fails_halfBank :
    let fresh := holding (.assemble .mmc1 (.replicate 0x2000 0xa5) #[] .horizontal false)
    ¬AllPass (fresh.runChecks [.readCpu 0xa000]) ∧ fresh.readCpu? 0x9fff = some 0xa5 ∧
      fresh.readCpu? 0xa000 = none := by
  have carries :=
    Carries.assemble .mmc1 (.replicate 0x2000 0xa5) #[] (by decide) .horizontal false
  rw [Array.size_replicate] at carries
  have lacks : Lacks .mmc1 0x2000 0xa000 := by decide
  refine ⟨fun checks ↦ ?_, ?_, (carries.readCpu?_eq_none_iff _).mpr lacks⟩
  · rw [allPass_runChecks_holding_iff carries (by decide)] at checks
    exact checks _ (List.mem_singleton_self _) lacks
  · have upper : (0x8000 : UInt16) ≤ 0x9fff := by decide
    refine (readCpu?_accessAll .mmc1 (.replicate 0x2000 0xa5) #[] .horizontal false [] upper
      (by simp) (by rw [Array.size_replicate]; decide)).trans ?_
    rw [Array.getElem?_eq_getElem (Nat.mod_lt _ (by simp)), Array.getElem_replicate]

end Slot

end Famicom
