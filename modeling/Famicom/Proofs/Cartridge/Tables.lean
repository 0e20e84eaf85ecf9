import Famicom.Proofs.Cartridge.Cells
import Famicom.Proofs.Cartridge.Windows

/-!
# Nametables under changing arrangements

The bytes of the nametables lie in banks of 1 KiB, and the arrangement says which bank shows as
which table. It can change at any time: two kinds of board choose it with their registers. A byte
stays where it was written, and is seen again wherever its bank shows now.

So a history of nametable memory is a list of writes, each with the arrangement in force at it
(`TableWrite`). An address shows the byte of the last write to the place that the address selects
under the arrangement of now (`lastAt?`, `Vram.read_writeAll`), whatever the arrangements were in
between. This holds of the memory alone, where anyone may change the arrangement
(`Nametables.Step`), and of each kind of board, whose arrangement follows the writes of the processor
(`Board.arrangementAt`).
-/

namespace Famicom

/-! ## Places -/

namespace Mirroring

/-- The banks that show as the four nametables. -/
def banks : Mirroring → Vector Nat 4
  | horizontal => #v[0, 0, 1, 1]
  | vertical => #v[0, 1, 0, 1]
  | singleScreenLower => #v[0, 0, 0, 0]
  | singleScreenUpper => #v[1, 1, 1, 1]
  | fourScreen => #v[0, 1, 2, 3]

/-- The place of the byte that an address selects: its bank, and where in the bank it is. -/
def place (m : Mirroring) (addr : UInt16) : Nat × Nat :=
  (m.banks.get (low2 (addr.toNat / 0x400)), addr.toNat % 0x400)

theorem bank_eq (m : Mirroring) (table : Fin 4) : m.bank table = m.banks.get table := by
  revert table
  cases m <;> decide

theorem cell_eq (m : Mirroring) (addr : UInt16) :
    m.cell addr = (m.place addr).1 * 0x400 + (m.place addr).2 := by
  rw [place, ← bank_eq]
  rfl

/-- Cells are places, also of different arrangements. -/
theorem cell_eq_cell_iff (m other : Mirroring) (addr otherAddr : UInt16) :
    m.cell addr = other.cell otherAddr ↔ m.place addr = other.place otherAddr := by
  have hplace (m : Mirroring) (addr : UInt16) : (m.place addr).2 < 0x400 :=
    Nat.mod_lt _ (by decide)
  have hfirst := hplace m addr
  have hsecond := hplace other otherAddr
  rw [cell_eq, cell_eq, Prod.ext_iff]
  omega

/-- The nametables repeat after 4 KiB. -/
theorem place_sub (m : Mirroring) {addr : UInt16} (h : 0x1000 ≤ addr) :
    m.place (addr - 0x1000) = m.place addr := by
  have hsub : (addr - 0x1000).toNat = addr.toNat - 0x1000 := UInt16.toNat_sub_of_le _ _ h
  have hlow : 0x1000 ≤ addr.toNat := h
  have htable : low2 ((addr.toNat - 0x1000) / 0x400) = low2 (addr.toNat / 0x400) := by
    apply Fin.ext
    rw [val_low2, val_low2]
    omega
  rw [place, place, hsub, htable, Prod.mk.injEq]
  omega

theorem cell_sub (m : Mirroring) {addr : UInt16} (h : 0x1000 ≤ addr) :
    m.cell (addr - 0x1000) = m.cell addr := (m.cell_eq_cell_iff m _ _).mpr (m.place_sub h)

end Mirroring

/-! ## Writes and the arrangements they meet -/

/-- A write to a nametable, with the arrangement in force at it. -/
structure TableWrite where
  arrangement : Mirroring
  addr : UInt16
  value : UInt8
  deriving DecidableEq, Repr

/-- The place that a write goes to. -/
def TableWrite.place (w : TableWrite) : Nat × Nat := w.arrangement.place w.addr

/-- The byte that the last of some writes to a place has put there. -/
def lastAt? (place : Nat × Nat) (writes : List TableWrite) : Option UInt8 :=
  (writes.reverse.find? fun w ↦ w.place = place).map (·.value)

theorem lastAt?_concat (place : Nat × Nat) (writes : List TableWrite) (w : TableWrite) :
    lastAt? place (writes ++ [w]) = if w.place = place then some w.value
      else lastAt? place writes := by
  rw [lastAt?, List.reverse_concat, List.find?_cons]
  by_cases hplace : w.place = place
  · rw [if_pos hplace, decide_eq_true hplace]
    rfl
  · rw [if_neg hplace, decide_eq_false hplace, lastAt?]

namespace Vram

/-- A byte is read at every address that selects its place now. -/
theorem read_write_arranged (v : Vram) (w : TableWrite) (m : Mirroring) (addr : UInt16) :
    (v.write w.arrangement w.addr w.value).read m addr =
      if w.place = m.place addr then w.value else v.read m addr := by
  rw [TableWrite.place]
  simp only [read, write, Vector.getElem_set, Mirroring.cell_eq_cell_iff]

/-- Some writes, one after the other. -/
def writeAll (v : Vram) (writes : List TableWrite) : Vram :=
  writes.foldl (fun v w ↦ v.write w.arrangement w.addr w.value) v

theorem writeAll_append (v : Vram) (writes rest : List TableWrite) :
    v.writeAll (writes ++ rest) = (v.writeAll writes).writeAll rest := List.foldl_append ..

theorem read_blank (m : Mirroring) (addr : UInt16) : blank.read m addr = 0 :=
  Vector.getElem_replicate _

/-- An address shows the last byte written to the place that it selects now. -/
theorem read_writeAll (writes : List TableWrite) (m : Mirroring) (addr : UInt16) :
    (blank.writeAll writes).read m addr = (lastAt? (m.place addr) writes).getD 0 := by
  induction writes using List.reverseRecOn with
  | nil => exact read_blank m addr
  | append_singleton writes w ih =>
    rw [writeAll_append, lastAt?_concat]
    change ((blank.writeAll writes).write w.arrangement w.addr w.value).read m addr = _
    rw [read_write_arranged, ih]
    split <;> rfl

end Vram

/-! ## The memory alone -/

/-- Nametable memory and its arrangement. -/
structure Nametables where
  arrangement : Mirroring
  vram : Vram := .blank

namespace Nametables

/-- What can happen to nametable memory. -/
inductive Step where
  | arrange (m : Mirroring)
  | write (addr : UInt16) (value : UInt8)
  | read (addr : UInt16)

/-- The memory after a step. -/
def act (n : Nametables) : Step → Nametables
  | .arrange m => { n with arrangement := m }
  | .write addr value => { n with vram := n.vram.write n.arrangement addr value }
  | .read _ => n

/-- The memory after some steps. -/
def run (n : Nametables) (steps : List Step) : Nametables := steps.foldl act n

/-- The byte that an address shows. -/
def read (n : Nametables) (addr : UInt16) : UInt8 := n.vram.read n.arrangement addr

/-- The write that a step is. -/
def write? (n : Nametables) : Step → Option TableWrite
  | .write addr value => some ⟨n.arrangement, addr, value⟩
  | _ => none

/-- The writes among some steps, each with the arrangement in force at it. -/
def writes (n : Nametables) : List Step → List TableWrite
  | [] => []
  | step :: rest => (n.write? step).toList ++ (n.act step).writes rest

theorem vram_run (n : Nametables) (steps : List Step) :
    (n.run steps).vram = n.vram.writeAll (n.writes steps) := by
  induction steps generalizing n with
  | nil => rfl
  | cons step rest ih =>
    change ((n.act step).run rest).vram = _
    rw [ih, writes, Vram.writeAll_append]
    cases step <;> rfl

end Nametables

/-! ## Boards -/

namespace Board

/-- The write to a nametable that an access is. -/
def tableWrite? (b : Board) : Access → Option TableWrite
  | .writePpu addr value => if isPattern addr then none else some ⟨b.mirroring, addr, value⟩
  | _ => none

/-- The writes to nametables among some accesses, each with the arrangement in force at it. -/
def tableWrites (b : Board) : List Access → List TableWrite
  | [] => []
  | a :: rest => (b.tableWrite? a).toList ++ (b.access a).tableWrites rest

/-- The arrangement of a kind of board, by its history. -/
def arrangementAt (kind : BoardKind) (wiring : Mirroring) (history : List Access) : Mirroring :=
  match kind with
  | .nrom | .uxrom | .cnrom => wiring
  | .mmc1 => SerialBanks.arrangementNamed (registersAt history .control)
  | .axrom =>
    if selectedAt history / 16 % 2 = 1 then .singleScreenUpper else .singleScreenLower

theorem vram_writeCpu (b : Board) (addr : UInt16) (value : UInt8) :
    (b.writeCpu addr value).vram = b.vram := by
  rw [writeCpu]
  split
  · rfl
  · split <;> rfl

theorem writePpu_of_isPattern (b : Board) {addr : UInt16} (h : isPattern addr = true)
    (value : UInt8) :
    b.writePpu addr value =
      { b with patterns :=
          b.patterns.write (b.circuit.patternOffset b.patterns.bytes.size addr) value } := if_pos h

theorem writePpu_of_not_isPattern (b : Board) {addr : UInt16} (h : isPattern addr = false)
    (value : UInt8) :
    b.writePpu addr value = { b with vram := b.vram.write b.mirroring addr value } :=
  if_neg (Bool.eq_false_iff.mp h)

theorem readPpu_of_not_isPattern (b : Board) {addr : UInt16} (h : isPattern addr = false) :
    b.readPpu addr = b.vram.read b.mirroring addr := if_neg (Bool.eq_false_iff.mp h)

theorem vram_access (b : Board) (a : Access) :
    (b.access a).vram = b.vram.writeAll (b.tableWrite? a).toList := by
  cases a with
  | readCpu | readPpu => rfl
  | writeCpu addr value => exact b.vram_writeCpu addr value
  | writePpu addr value =>
    rw [access, tableWrite?]
    cases h : isPattern addr with
    | true => rw [writePpu_of_isPattern b h]; rfl
    | false => rw [writePpu_of_not_isPattern b h]; rfl

theorem vram_accessAll (b : Board) (history : List Access) :
    (b.accessAll history).vram = b.vram.writeAll (b.tableWrites history) := by
  induction history generalizing b with
  | nil => rfl
  | cons a rest ih =>
    change ((b.access a).accessAll rest).vram = _
    rw [ih, vram_access, tableWrites, Vram.writeAll_append]

theorem circuit_accessAll (kind : BoardKind) (program patterns : Array UInt8) (wiring : Mirroring)
    (withWorkRam : Bool) (history : List Access) :
    ((assemble kind program patterns wiring withWorkRam).accessAll history).circuit =
      circuitAt kind wiring history := by
  induction history using List.reverseRecOn with
  | nil => cases kind <;> rfl
  | append_singleton history a ih =>
    rw [accessAll, List.foldl_append]
    change (access (accessAll _ history) a).circuit = _
    cases a with
    | readCpu addr | readPpu addr => rw [circuitAt_append_of_none _ _ _ rfl]; exact ih
    | writePpu addr value =>
      rw [circuitAt_append_of_none _ _ _ rfl, access, circuit_writePpu]
      exact ih
    | writeCpu addr value =>
      rw [access, circuit_writeCpu _ (addr, value), ih]
      cases hport : SerialBanks.isPort (addr, value) with
      | true => exact (circuitAt_append_write kind wiring history value
          (of_decide_eq_true hport)).symm
      | false =>
        have hnone : (Access.writeCpu addr value).portWrite? = none :=
          if_neg (of_decide_eq_false hport)
        exact (circuitAt_append_of_none kind wiring history hnone).symm

theorem mirroring_circuitAt (kind : BoardKind) (wiring : Mirroring) (history : List Access) :
    (circuitAt kind wiring history).mirroring = arrangementAt kind wiring history := by
  cases kind with
  | nrom | uxrom | cnrom => rfl
  | mmc1 =>
    have hsound := SerialBanks.IsSound.powerOn.writeAll (portWrites history)
    have hcontrol : (({} : SerialBanks).writeAll (portWrites history)).control =
        registersAt history .control := congrFun (register_writeAll_portWrites history) .control
    rw [arrangementAt, ← hcontrol, ← SerialBanks.arrangementOf_eq]
    exact hsound.arrangement
  | axrom =>
    have hbit : bit (.ofNat (selectedAt history)) 4 = decide (selectedAt history / 16 % 2 = 1) := by
      rw [bit, UInt8.toNat_ofNat_of_lt' (selectedAt_lt history), Nat.testBit_eq_decide_div_mod_eq]
    rw [circuitAt, Circuit.mirroring, hbit, arrangementAt]
    simp only [decide_eq_true_iff]

/-! ## The upper mirror -/

theorem isPattern_sub {addr : UInt16} (h : 0x3000 ≤ addr) (hhigh : addr < 0x3f00) :
    isPattern addr = false ∧ isPattern (addr - 0x1000) = false := by
  have hlow : 0x1000 ≤ addr := UInt16.le_trans (by decide) h
  have hsub : (addr - 0x1000).toNat = addr.toNat - 0x1000 := UInt16.toNat_sub_of_le _ _ hlow
  have hbelow : 0x3000 ≤ addr.toNat := h
  have habove : addr.toNat < 0x3f00 := hhigh
  rw [isPattern, isPattern, decide_eq_false_iff_not, decide_eq_false_iff_not, hsub]
  omega

variable {addr : UInt16}

theorem readPpu_mirror (b : Board) (h : 0x3000 ≤ addr) (hhigh : addr < 0x3f00) :
    b.readPpu addr = b.readPpu (addr - 0x1000) := by
  obtain ⟨hupper, hlower⟩ := isPattern_sub h hhigh
  have hcell := b.mirroring.cell_sub (UInt16.le_trans (by decide) h)
  rw [readPpu_of_not_isPattern b hupper, readPpu_of_not_isPattern b hlower]
  simp only [Vram.read, hcell]

theorem writePpu_mirror (b : Board) (h : 0x3000 ≤ addr) (hhigh : addr < 0x3f00) (value : UInt8) :
    b.writePpu addr value = b.writePpu (addr - 0x1000) value := by
  obtain ⟨hupper, hlower⟩ := isPattern_sub h hhigh
  have hcell := b.mirroring.cell_sub (UInt16.le_trans (by decide) h)
  rw [writePpu_of_not_isPattern b hupper, writePpu_of_not_isPattern b hlower]
  simp only [Vram.write, hcell]

/-! ## What is shown -/

/-- A nametable shows what was written last to the place that it shows now, in whatever arrangement
the write met it, and zero before the first write. So it is with the memory alone, whoever changes
the arrangement, and with every board after any accesses from both sides, the arrangement being the
one that the history of the board selects. No change of the arrangement touches a byte, and neither
the nametables nor the patterns are reached by a write to the other. From `$3000` on the nametables
show again. -/
theorem tables_follow_history :
    (∀ (m : Mirroring) (steps : List Nametables.Step) (addr : UInt16),
      ((⟨m, .blank⟩ : Nametables).run steps).read addr =
        (lastAt? (((⟨m, .blank⟩ : Nametables).run steps).arrangement.place addr)
          ((⟨m, .blank⟩ : Nametables).writes steps)).getD 0) ∧
      (∀ (n : Nametables) (m : Mirroring), (n.act (.arrange m)).vram = n.vram) ∧
      ∀ (kind : BoardKind) (program patterns : Array UInt8) (wiring : Mirroring)
        (withWorkRam : Bool) (history : List Access),
        let fresh := assemble kind program patterns wiring withWorkRam
        let b := fresh.accessAll history
        b.mirroring = arrangementAt kind wiring history ∧
          (∀ addr, isPattern addr = false →
            b.readPpu addr = (lastAt? (b.mirroring.place addr) (fresh.tableWrites history)).getD 0) ∧
          (∀ addr value, (b.writeCpu addr value).vram = b.vram) ∧
          (∀ addr value, isPattern addr = true → (b.writePpu addr value).vram = b.vram) ∧
          (∀ addr value, isPattern addr = false →
            (b.writePpu addr value).patterns = b.patterns) ∧
          ∀ addr, 0x3000 ≤ addr → addr < 0x3f00 →
            b.readPpu addr = b.readPpu (addr - 0x1000) ∧
              ∀ value, b.writePpu addr value = b.writePpu (addr - 0x1000) value := by
  refine ⟨?_, ?_, ?_⟩
  · intro m steps addr
    rw [Nametables.read, Nametables.vram_run, Vram.read_writeAll]
  · intro n m
    rfl
  · intro kind program patterns wiring withWorkRam history fresh b
    refine ⟨?_, ?_, b.vram_writeCpu, ?_, ?_, ?_⟩
    · change b.circuit.mirroring = _
      rw [circuit_accessAll, mirroring_circuitAt]
    · intro addr table
      rw [readPpu_of_not_isPattern b table, vram_accessAll]
      exact Vram.read_writeAll _ _ _
    · intro addr value area
      rw [writePpu_of_isPattern b area]
    · intro addr value table
      rw [writePpu_of_not_isPattern b table]
    · intro addr low high
      exact ⟨b.readPpu_mirror low high, b.writePpu_mirror low high⟩

/-- A board that shows one bank everywhere, and then the other: a byte written to the first is hidden
while the second shows and is back when the first does, at every table and in the upper mirror. -/
theorem tables_follow_history_axrom :
    let fresh := assemble .axrom #[] #[] .horizontal false
    let hidden := fresh.accessAll [.writePpu 0x2000 0x11, .writeCpu 0x8000 0x10]
    let back := fresh.accessAll
      [.writePpu 0x2000 0x11, .writeCpu 0x8000 0x10, .writePpu 0x0000 0x22, .writeCpu 0x8000 0]
    hidden.readPpu 0x2c00 = 0 ∧ back.readPpu 0x2c00 = 0x11 ∧ back.readPpu 0x3c00 = 0x11 := by
  intro fresh hidden back
  obtain ⟨hupper, hhidden, -⟩ := tables_follow_history.2.2 .axrom #[] #[] .horizontal false
    [.writePpu 0x2000 0x11, .writeCpu 0x8000 0x10]
  obtain ⟨hlower, hback, -, -, -, hmirror⟩ :=
    tables_follow_history.2.2 .axrom #[] #[] .horizontal false
      [.writePpu 0x2000 0x11, .writeCpu 0x8000 0x10, .writePpu 0x0000 0x22, .writeCpu 0x8000 0]
  have hshown : back.readPpu 0x2c00 = 0x11 := by
    rw [hback 0x2c00 rfl, hlower]
    rfl
  refine ⟨?_, hshown, (hmirror 0x3c00 (by decide) (by decide)).1.trans hshown⟩
  rw [hhidden 0x2c00 rfl, hupper]
  rfl

end Board

end Famicom
