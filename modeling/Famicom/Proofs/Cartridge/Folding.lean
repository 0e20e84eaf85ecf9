import Famicom.Proofs.Cartridge.Tables
import Famicom.Proofs.Safety.Cartridge

/-!
# Addresses beyond the picture chip's bus

The bus of the picture chip has fourteen lines, and a board that is asked for an address with more
bits is meant to leave the two highest out of account: to treat it as its *fold*. Four kinds of board
do so. Whatever their registers hold and however large their patterns are, an address selects the
cell that its fold selects, so that both read the same byte and a write to either is the same write.

An MMC1 board folds the address to find out that it lies among the patterns, but then chooses the
bank by the address as it stands. Any address beyond the fourteen lines is at least `$1000` and counts
as one of the upper half of the patterns:

```text
fold addr           $0000-$0fff   $1000-$1fff   $2000-$3fff
addr below $4000    lower bank    upper bank    nametables
addr from $4000 on  upper bank    upper bank    nametables
```

So the addresses that repeat the lower half show the upper half instead (`Board.cellOf_upperHalf`),
and they fold only in those states of the registers in which both halves show one bank
(`Board.cellOf_fold_iff`).
-/

namespace Famicom

/-! ## Folding -/

/-- The address that is left on fourteen lines. -/
def fold (addr : UInt16) : UInt16 := addr &&& 0x3fff

/-- The address repeats one of the lower half of the patterns, beyond the fourteen lines. -/
def RepeatsLower (addr : UInt16) : Prop := 0x4000 ≤ addr ∧ fold addr < 0x1000

instance (addr : UInt16) : Decidable (RepeatsLower addr) := inferInstanceAs (Decidable (_ ∧ _))

theorem toNat_fold (addr : UInt16) : (fold addr).toNat = addr.toNat % 0x4000 := by
  rw [fold, UInt16.toNat_and]
  exact Nat.and_two_pow_sub_one_eq_mod _ 14

theorem repeatsLower_iff {addr : UInt16} :
    RepeatsLower addr ↔ 0x4000 ≤ addr.toNat ∧ addr.toNat % 0x4000 < 0x1000 := by
  rw [← toNat_fold]
  rfl

theorem isPattern_fold (addr : UInt16) :
    Board.isPattern (fold addr) = Board.isPattern addr := by
  rw [Board.isPattern, Board.isPattern, toNat_fold, Nat.mod_mod]

/-- The nametables repeat more often than the bus. -/
theorem Mirroring.cell_fold (m : Mirroring) (addr : UInt16) : m.cell (fold addr) = m.cell addr := by
  have htable : addr.toNat % 0x4000 / 0x400 % 4 = addr.toNat / 0x400 % 4 := by omega
  have hoffset : addr.toNat % 0x4000 % 0x400 = addr.toNat % 0x400 := by omega
  rw [cell, cell, toNat_fold, tableSize, htable, hoffset]

/-- Folding moves an address to the other half of the patterns only if it repeats the lower one. -/
theorem fold_lt_iff {addr : UInt16} (h : ¬RepeatsLower addr) :
    fold addr < 0x1000 ↔ addr < 0x1000 := by
  change (fold addr).toNat < 0x1000 ↔ addr.toNat < 0x1000
  rw [repeatsLower_iff] at h
  rw [toNat_fold]
  omega

/-! ## Offsets -/

namespace SerialBanks

/-- Both halves of the patterns show one bank of a memory of `size` bytes. -/
def ShowsOneBank (s : SerialBanks) (size : Nat) : Prop :=
  s.patternBank (Circuit.bankCount size 0x1000) 0x0000 =
    s.patternBank (Circuit.bankCount size 0x1000) 0x1000

instance (s : SerialBanks) (size : Nat) : Decidable (s.ShowsOneBank size) :=
  inferInstanceAs (Decidable (_ = _))

/-- The bank depends on the half alone. -/
theorem patternBank_congr (s : SerialBanks) (banks : Nat) {addr other : UInt16}
    (h : addr < 0x1000 ↔ other < 0x1000) : s.patternBank banks addr = s.patternBank banks other := by
  simp only [patternBank, h]

end SerialBanks

namespace Circuit

theorem patternOffset_fold (c : Circuit) (size : Nat) {addr : UInt16}
    (h : c.kind = .mmc1 → ¬RepeatsLower addr) :
    c.patternOffset size (fold addr) = c.patternOffset size addr := by
  have harea : addr.toNat % 0x4000 % 0x2000 = addr.toNat % 0x2000 := by omega
  have hhalf : addr.toNat % 0x4000 % 0x1000 = addr.toNat % 0x1000 := by omega
  cases c with
  | nrom | uxrom | axrom | cnrom => simp only [patternOffset, toNat_fold, harea]
  | mmc1 serial =>
    have hbank := serial.patternBank_congr (bankCount size 0x1000) (fold_lt_iff (h rfl))
    simp only [patternOffset, toNat_fold, hhalf, hbank]

theorem exists_of_kind {c : Circuit} (h : c.kind = .mmc1) : ∃ serial, c = .mmc1 serial := by
  cases c with
  | mmc1 serial => exact ⟨serial, rfl⟩
  | nrom | uxrom | cnrom | axrom => exact BoardKind.noConfusion h

/-- Different banks have different bytes at a place: a memory of less than a bank has one bank. -/
theorem bank_mod_eq_iff {size first second inBank : Nat} (hfirst : first < bankCount size 0x1000)
    (hsecond : second < bankCount size 0x1000) (hinBank : inBank < 0x1000) :
    (first * 0x1000 + inBank) % size = (second * 0x1000 + inBank) % size ↔ first = second := by
  constructor
  · intro h
    by_cases hsize : 0x1000 ≤ size
    · have hfirstPlace := mul_add_lt_of_bankCount hfirst hinBank
      have hsecondPlace := mul_add_lt_of_bankCount hsecond hinBank
      rw [Nat.max_eq_right hsize] at hfirstPlace hsecondPlace
      rw [Nat.mod_eq_of_lt hfirstPlace, Nat.mod_eq_of_lt hsecondPlace] at h
      omega
    · have hone : bankCount size 0x1000 = 1 := by
        rw [bankCount, Nat.div_eq_of_lt (Nat.lt_of_not_le hsize)]
        rfl
      omega
  · rintro rfl
    rfl

end Circuit

namespace Board

variable {b : Board} {addr other : UInt16}

/-! ## Cells decide -/

theorem cellOf_of_isPattern (h : isPattern addr = true) :
    b.cellOf addr =
      .pattern (b.circuit.patternOffset b.patterns.bytes.size addr % b.patterns.bytes.size) :=
  if_pos h

theorem cellOf_of_not_isPattern (h : isPattern addr = false) :
    b.cellOf addr = .nametable (b.mirroring.cell addr) := if_neg (Bool.eq_false_iff.mp h)

theorem readPpu_of_isPattern (h : isPattern addr = true) :
    b.readPpu addr =
      b.patterns.read (b.circuit.patternOffset b.patterns.bytes.size addr) := if_pos h

/-- Addresses of one cell are of one area, and in it at one place. -/
theorem cellOf_eq_cases (h : b.cellOf addr = b.cellOf other) :
    (isPattern addr = true ∧ isPattern other = true ∧
      b.circuit.patternOffset b.patterns.bytes.size addr % b.patterns.bytes.size =
        b.circuit.patternOffset b.patterns.bytes.size other % b.patterns.bytes.size) ∨
    (isPattern addr = false ∧ isPattern other = false ∧
      b.mirroring.cell addr = b.mirroring.cell other) := by
  cases haddr : isPattern addr with
  | true =>
    cases hother : isPattern other with
    | true =>
      rw [cellOf_of_isPattern haddr, cellOf_of_isPattern hother] at h
      exact Or.inl ⟨rfl, rfl, Cell.pattern.inj h⟩
    | false =>
      rw [cellOf_of_isPattern haddr, cellOf_of_not_isPattern hother] at h
      exact Cell.noConfusion h
  | false =>
    cases hother : isPattern other with
    | true =>
      rw [cellOf_of_not_isPattern haddr, cellOf_of_isPattern hother] at h
      exact Cell.noConfusion h
    | false =>
      rw [cellOf_of_not_isPattern haddr, cellOf_of_not_isPattern hother] at h
      exact Or.inr ⟨rfl, rfl, Cell.nametable.inj h⟩

theorem readPpu_congr (h : b.cellOf addr = b.cellOf other) : b.readPpu addr = b.readPpu other := by
  rcases cellOf_eq_cases h with ⟨haddr, hother, hplace⟩ | ⟨haddr, hother, hplace⟩
  · rw [readPpu_of_isPattern haddr, readPpu_of_isPattern hother]
    simp only [PatternMemory.read, hplace]
  · rw [readPpu_of_not_isPattern b haddr, readPpu_of_not_isPattern b hother]
    simp only [Vram.read, hplace]

theorem writePpu_congr (h : b.cellOf addr = b.cellOf other) (value : UInt8) :
    b.writePpu addr value = b.writePpu other value := by
  rcases cellOf_eq_cases h with ⟨haddr, hother, hplace⟩ | ⟨haddr, hother, hplace⟩
  · rw [writePpu_of_isPattern b haddr, writePpu_of_isPattern b hother]
    simp only [PatternMemory.write, hplace]
  · rw [writePpu_of_not_isPattern b haddr, writePpu_of_not_isPattern b hother]
    simp only [Vram.write, hplace]

/-- Addresses that show one byte after every write to the first of them select one cell. -/
theorem cellOf_eq_of_forall_write (hwritable : b.patterns.writable = true)
    (h : ∀ value, (b.writePpu addr value).readPpu addr = (b.writePpu addr value).readPpu other) :
    b.cellOf other = b.cellOf addr := by
  by_contra hcells
  have hshown := h (b.readPpu other + 1)
  rw [readPpu_writePpu _ _ hwritable, readPpu_writePpu _ _ hwritable, if_pos rfl,
    if_neg hcells] at hshown
  exact absurd hshown (by simp)

/-! ## Cells of folded addresses -/

theorem cellOf_fold (h : b.circuit.kind = .mmc1 → ¬RepeatsLower addr) :
    b.cellOf (fold addr) = b.cellOf addr := by
  rw [cellOf, cellOf, isPattern_fold, Mirroring.cell_fold, Circuit.patternOffset_fold _ _ h]

theorem isPattern_of_repeatsLower (h : RepeatsLower addr) : isPattern addr = true :=
  decide_eq_true (Nat.lt_trans (repeatsLower_iff.mp h).2 (by decide))

/-- What repeats the lower half of the patterns of an MMC1 board shows the upper half. -/
theorem cellOf_upperHalf {serial : SerialBanks} (hcircuit : b.circuit = .mmc1 serial)
    (h : RepeatsLower addr) : b.cellOf (fold addr + 0x1000) = b.cellOf addr := by
  obtain ⟨hhigh, hlow⟩ := repeatsLower_iff.mp h
  have hplace : (fold addr + 0x1000).toNat = addr.toNat % 0x4000 + 0x1000 := by
    rw [UInt16.toNat_add, toNat_fold]
    change (addr.toNat % 0x4000 + 0x1000) % 0x10000 = _
    omega
  have harea : isPattern (fold addr + 0x1000) = true := by
    rw [isPattern, hplace, decide_eq_true_iff]
    omega
  have hupper : addr < 0x1000 ↔ fold addr + 0x1000 < 0x1000 := by
    change addr.toNat < 0x1000 ↔ (fold addr + 0x1000).toNat < 0x1000
    rw [hplace]
    omega
  have hinBank : (addr.toNat % 0x4000 + 0x1000) % 0x1000 = addr.toNat % 0x1000 := by omega
  rw [cellOf_of_isPattern harea, cellOf_of_isPattern (isPattern_of_repeatsLower h), hcircuit]
  simp only [Circuit.patternOffset, hplace, hinBank, serial.patternBank_congr _ hupper]

/-- It is at the place of the fold only if both halves show one bank. -/
theorem cellOf_fold_iff {serial : SerialBanks} (hcircuit : b.circuit = .mmc1 serial)
    (h : RepeatsLower addr) :
    b.cellOf (fold addr) = b.cellOf addr ↔ serial.ShowsOneBank b.patterns.bytes.size := by
  obtain ⟨hhigh, hlow⟩ := repeatsLower_iff.mp h
  have hlower : fold addr < 0x1000 ↔ (0x0000 : UInt16) < 0x1000 := iff_of_true h.2 (by decide)
  have hupper : addr < 0x1000 ↔ (0x1000 : UInt16) < 0x1000 := by
    refine iff_of_false ?_ (by decide)
    change ¬addr.toNat < 0x1000
    omega
  have harea := isPattern_of_repeatsLower h
  have hinBank : addr.toNat % 0x4000 % 0x1000 = addr.toNat % 0x1000 := by omega
  have hbanks := Circuit.bankCount_pos b.patterns.bytes.size 0x1000
  rw [cellOf_of_isPattern ((isPattern_fold addr).trans harea), cellOf_of_isPattern harea,
    Cell.pattern.injEq, hcircuit]
  simp only [Circuit.patternOffset, toNat_fold, hinBank, serial.patternBank_congr _ hlower,
    serial.patternBank_congr _ hupper]
  exact Circuit.bank_mod_eq_iff (Circuit.patternBank_lt serial hbanks _)
    (Circuit.patternBank_lt serial hbanks _) (Nat.mod_lt _ (by decide))

/-! ## Reads and writes -/

/-- The board treats an address as its fold. -/
def FoldsAt (b : Board) (addr : UInt16) : Prop :=
  b.readPpu addr = b.readPpu (fold addr) ∧
    ∀ value, b.writePpu addr value = b.writePpu (fold addr) value

theorem foldsAt_of_cellOf (h : b.cellOf (fold addr) = b.cellOf addr) : b.FoldsAt addr :=
  ⟨readPpu_congr h.symm, writePpu_congr h.symm⟩

/-- An MMC1 board in a state of its registers, with pattern memory that can be written. -/
def withPatternRam (serial : SerialBanks) (size : Nat) (hsize : 0 < size) : Board where
  program := #[]
  patterns := ⟨Array.replicate size 0, true, by rwa [Array.size_replicate]⟩
  vram := .blank
  workRam := none
  circuit := .mmc1 serial

/-- Boards in one state of the registers and with patterns of one size, whatever these hold, show one
bank in both halves if they fold an address that repeats the lower half. -/
theorem showsOneBank_of_forall_foldsAt {serial : SerialBanks} {size : Nat}
    (h : RepeatsLower addr)
    (hfolds : ∀ b : Board, b.circuit = .mmc1 serial → b.patterns.bytes.size = size →
      b.FoldsAt addr) : serial.ShowsOneBank size := by
  rcases Nat.eq_zero_or_pos size with rfl | hsize
  · exact (Nat.mod_one _).trans (Nat.mod_one _).symm
  · -- A byte written to such a board comes back at the fold, so that the cells are the same.
    have hlength : (withPatternRam serial size hsize).patterns.bytes.size = size :=
      Array.size_replicate
    have hcell := cellOf_eq_of_forall_write (b := withPatternRam serial size hsize) rfl
      fun value ↦ (hfolds ((withPatternRam serial size hsize).writePpu addr value)
        (circuit_writePpu _ _ _) ((size_writePpu _ _ _).trans hlength)).1
    rwa [cellOf_fold_iff rfl h, hlength] at hcell

/-- In every state of the bank registers and with patterns of every size, whatever is in the
memories, a board treats an address of sixteen bits as its fold, unless the board is of the MMC1 kind,
the address repeats the lower half of the patterns, and the two halves show different banks. For what
an MMC1 board makes of an address that repeats the lower half is the address that lies as far into the
upper half. -/
theorem addresses_fold_iff (c : Circuit) (size : Nat) (addr : UInt16) :
    ((∀ b : Board, b.circuit = c → b.patterns.bytes.size = size → b.FoldsAt addr) ↔
        ∀ serial, c = .mmc1 serial → RepeatsLower addr → serial.ShowsOneBank size) ∧
      ∀ b : Board, b.circuit = c → c.kind = .mmc1 → RepeatsLower addr →
        b.readPpu addr = b.readPpu (fold addr + 0x1000) ∧
          ∀ value, b.writePpu addr value = b.writePpu (fold addr + 0x1000) value := by
  refine ⟨⟨?exact, ?folds⟩, ?upper⟩
  case exact =>
    rintro hfolds serial rfl h
    exact showsOneBank_of_forall_foldsAt h hfolds
  case folds =>
    rintro hbanks b rfl rfl
    by_cases h : b.circuit.kind = .mmc1 ∧ RepeatsLower addr
    · obtain ⟨serial, hcircuit⟩ := Circuit.exists_of_kind h.1
      exact foldsAt_of_cellOf ((cellOf_fold_iff hcircuit h.2).mpr (hbanks serial hcircuit h.2))
    · exact foldsAt_of_cellOf (cellOf_fold (not_and.mp h))
  case upper =>
    rintro b rfl hkind h
    obtain ⟨serial, hcircuit⟩ := Circuit.exists_of_kind hkind
    have hcell := cellOf_upperHalf hcircuit h
    exact ⟨readPpu_congr hcell.symm, writePpu_congr hcell.symm⟩

/-- A board with another circuit, an MMC1 board whose registers show the fourth bank in both halves,
and one that takes the address for another. -/
theorem addresses_fold_iff_repeated :
    let cnrom := assemble .cnrom #[] #[0x11, 0x22, 0x33] .vertical false
    let mmc1 := assemble .mmc1 #[] #[0x11, 0x22, 0x33] .vertical false
    let fourth : SerialBanks := { control := 0b11100, pattern0 := 3, pattern1 := 3 }
    cnrom.FoldsAt 0x4abc ∧
      (∀ b : Board, b.circuit = .mmc1 fourth → b.patterns.bytes.size = 0x8000 →
        b.FoldsAt 0x4abc) ∧
      mmc1.circuit.kind = .mmc1 ∧ RepeatsLower 0x4abc ∧
        mmc1.readPpu 0x4abc = mmc1.readPpu (fold 0x4abc + 0x1000) := by
  intro cnrom mmc1 fourth
  have hrepeats : RepeatsLower 0x4abc := by decide
  obtain ⟨hcnrom, -⟩ := addresses_fold_iff cnrom.circuit cnrom.patterns.bytes.size 0x4abc
  obtain ⟨hfourth, -⟩ := addresses_fold_iff (.mmc1 fourth) 0x8000 0x4abc
  obtain ⟨-, hupper⟩ := addresses_fold_iff mmc1.circuit mmc1.patterns.bytes.size 0x4abc
  refine ⟨hcnrom.mpr ?_ cnrom rfl rfl, hfourth.mpr ?_, rfl, hrepeats,
    (hupper mmc1 rfl rfl hrepeats).1⟩
  · rintro serial ⟨⟩
  · rintro serial ⟨rfl⟩ -
    decide

/-- A byte at the start of the upper half of an MMC1 board is read where the lower half repeats. -/
theorem not_foldsAt_lowerHalf :
    let b := (assemble .mmc1 #[] #[] .horizontal false).writePpu 0x1000 0x5a
    b.readPpu 0x4000 = 0x5a ∧ b.readPpu (fold 0x4000) = 0 ∧ ¬b.FoldsAt 0x4000 := by
  intro b
  have hsize : (assemble .mmc1 #[] #[] .horizontal false).patterns.bytes.size = 0x2000 :=
    Array.size_replicate
  have hrepeats : RepeatsLower 0x4000 := by decide
  have hcell := cellOf_upperHalf (b := assemble .mmc1 #[] #[] .horizontal false) rfl hrepeats
  rw [show fold 0x4000 + 0x1000 = 0x1000 from rfl] at hcell
  have hupper : b.readPpu 0x4000 = 0x5a :=
    (readPpu_writePpu _ _ rfl _).trans (if_pos hcell.symm)
  have hlower : b.readPpu (fold 0x4000) = 0 := by
    refine (readPpu_writePpu _ _ rfl _).trans ((if_neg ?_).trans (Array.getElem_replicate _))
    intro hsame
    have hbanks := (cellOf_fold_iff rfl hrepeats).mp (hsame.trans hcell)
    rw [hsize] at hbanks
    exact absurd hbanks (by decide)
  refine ⟨hupper, hlower, fun hfolds ↦ ?_⟩
  exact absurd (hupper.symm.trans (hfolds.1.trans hlower)) (by decide)

end Board

end Famicom
