import Famicom.Proofs.Cartridge.Windows
import Famicom.Proofs.Machine.Arithmetic
import Famicom.Proofs.Machine.Instruction

/-!
# Two instructions in one

Most of the undocumented instructions do what two documented ones do one after the other: a byte is
changed in place and the result goes into an operation with the accumulator, or a byte goes into two
registers. The decoder of the processor selects both at once (`Operation.parts?`), and the effect is
that of the two instructions at the same address (`Machine.execute_eq_parts`).

The two instructions access the bus more often than the one. What the first puts back the second
reads again, so the address has to keep what is written to it and a read must leave it alone, which
is so for memory (`Bus.IsStorage`). Where the second instruction works on the accumulator, and where
there is one access in any case, nothing is asked of the address.

A carry goes from the first part to the second, and flags that both set are those of the second. On
registers this is one equation (`Registers.modify_parts`).
-/

namespace Famicom

/-! ## The parts -/

/-- The two documented operations that an undocumented one is, both at its address. -/
def Operation.parts? : Operation → Option (Operation × Operation)
  | .modify .slo => some (.modify .asl, .load .ora)
  | .modify .rla => some (.modify .rol, .load .and)
  | .modify .sre => some (.modify .lsr, .load .eor)
  | .modify .rra => some (.modify .ror, .load .adc)
  | .modify .dcp => some (.modify .dec, .load .cmp)
  | .modify .isc => some (.modify .inc, .load .sbc)
  | .load .lax => some (.load .lda, .load .ldx)
  | _ => none

/-- The operand is a byte at an address. -/
def Mode.isAddressed : Mode → Bool
  | implicit | accumulator => false
  | _ => true

/-- An instruction applies an operation to the byte at an address. -/
structure Instruction.Applies (i : Instruction) (operation : Operation) (address : UInt16) :
    Prop where
  operation : i.operation = operation
  isAddressed : i.mode.isAddressed = true
  address : i.address = address

/-- No opcode applies an operation with two parts to the accumulator, nor the two undocumented ones
that take an immediate operand. -/
theorem Opcode.isAddressed_of_parts {opcode : UInt8}
    (h : (operation opcode).parts?.isSome = true ∨ operation opcode = .load .alr ∨
      operation opcode = .load .axs) : (Mode.ofOpcode opcode).isAddressed = true := by
  have hall : ∀ n : Fin 256,
      ((operations[low4 (n.val / 16)][low4 n.val]).parts?.isSome = true ∨
        operations[low4 (n.val / 16)][low4 n.val] = .load .alr ∨
        operations[low4 (n.val / 16)][low4 n.val] = .load .axs) →
      (OpcodeFields.mk (low2 n.val) (low3 (n.val / 4)) (low3 (n.val / 32))).addressing.isAddressed =
        true := by decide +kernel
  exact hall ⟨opcode.toNat, opcode.toNat_lt⟩ h

/-! ## On registers -/

namespace Registers

variable (r : Registers) (value : UInt8)

/-- An operation that changes a byte and goes on with the result is its two parts. -/
theorem modify_parts {op first : ModifyOp} {second : LoadOp}
    (h : (Operation.modify op).parts? = some (.modify first, .load second)) :
    r.modify op value =
      ((r.modify first value).1, (r.modify first value).2.load second (r.modify first value).1) := by
  cases op <;> cases h <;> rfl

theorem load_lax : r.load .lax value = (r.load .lda value).load .ldx value := rfl

theorem shiftRight_one : value >>> 1 = UInt8.ofNat (value.toNat / 2 + 0 * 128) := by
  apply UInt8.toNat_inj.mp
  rw [UInt8.toNat_shiftRight, Nat.shiftRight_eq_div_pow, UInt8.toNat_ofNat', Nat.zero_mul]
  have hvalue := value.toNat_lt
  change value.toNat / 2 = (value.toNat / 2 + 0) % 256
  omega

/-- The mask, and then a shift of the accumulator. -/
theorem load_alr :
    r.load .alr value =
      { ((r.load .and value).modify .lsr (r.load .and value).a).2 with
        a := ((r.load .and value).modify .lsr (r.load .and value).a).1 } := by
  have hshift := shiftRight_one (r.a &&& value)
  simp only [load, hshift]
  rfl

end Registers

/-! ## Memory that keeps what is written -/

namespace Board

variable {b : Board} {ram : Vector UInt8 workRamSize} {addr : UInt16}

theorem readCpu?_of_workRam (h : b.workRam = some ram) (enabled : b.circuit.workRamEnabled = true)
    (low : 0x6000 ≤ addr) (high : addr < 0x8000) :
    b.readCpu? addr = some (ram.get ⟨workRamCell addr, workRamCell_lt addr⟩) := by
  rw [readCpu?, if_neg (UInt16.not_lt.mpr low), if_pos high, readWorkRam, h]
  simp only [enabled, if_true]
  rfl

theorem workRam_writeCpu (h : b.workRam = some ram) (enabled : b.circuit.workRamEnabled = true)
    (low : 0x6000 ≤ addr) (high : addr < 0x8000) (value : UInt8) :
    (b.writeCpu addr value).workRam =
      some (ram.set (workRamCell addr) value (workRamCell_lt addr)) := by
  rw [writeCpu_of_workRam b value low high]
  change (if b.circuit.workRamEnabled then b.workRam.map _ else b.workRam) = _
  rw [enabled, if_pos rfl, h, Option.map_some]

theorem circuit_writeCpu_of_lt (b : Board) (high : addr < 0x8000) (value : UInt8) :
    (b.writeCpu addr value).circuit = b.circuit := by
  rw [circuit_writeCpu b (addr, value)]
  exact if_neg fun h ↦ UInt16.not_le.mpr high (of_decide_eq_true h)

end Board

namespace Bus

/-- An address of memory that can be written: the memory of the console, or the work memory of a
board while it is connected. -/
def IsStorage (b : Bus) (addr : UInt16) : Prop :=
  addr < 0x2000 ∨
    0x6000 ≤ addr ∧ addr < 0x8000 ∧
      ∃ board ram, b.slot = .holding board ∧ board.workRam = some ram ∧
        board.circuit.workRamEnabled = true

variable {b : Bus} {addr : UInt16}

theorem read_of_lt (h : addr < 0x2000) :
    b.read addr = (b.ram.get (Fin.ofNat _ addr.toNat), b) := by
  rw [read, Region.ofAddress_of_lt h]
  rfl

theorem ofAddress_of_workRam (low : 0x6000 ≤ addr) :
    Region.ofAddress addr = .cartridge addr := by
  have hlow : 0x6000 ≤ addr.toNat := low
  rcases Region.ofAddress_cases addr with h | h | h | h | h
  · omega
  · omega
  · omega
  · omega
  · exact h.2

/-- A read leaves memory alone, and everything else. -/
theorem IsStorage.read_snd (h : b.IsStorage addr) : (b.read addr).2 = b := by
  rcases h with h | ⟨low, high, board, ram, hslot, hram, henabled⟩
  · rw [read_of_lt h]
  · have hread := Board.readCpu?_of_workRam hram henabled low high
    have hslot : b.slot.readCpu? addr = board.readCpu? addr := by rw [hslot]; rfl
    rw [Machine.bus_read_of_readCpu? (ofAddress_of_workRam low) (hslot.trans hread)]

/-- What is written is read again. -/
theorem IsStorage.read_write (h : b.IsStorage addr) (value : UInt8) :
    (b.write addr value).read addr = (value, b.write addr value) := by
  rcases h with h | ⟨low, high, board, ram, hslot, hram, henabled⟩
  · rw [read_of_lt h, write, Region.ofAddress_of_lt h]
    exact congrArg (·, _) (Vector.getElem_set_self _)
  · refine Machine.bus_read_of_readCpu? (ofAddress_of_workRam low) ?_
    have hwritten : (b.write addr value).slot = .holding (board.writeCpu addr value) := by
      rw [write, ofAddress_of_workRam low]
      dsimp only
      rw [hslot]
      rfl
    have hstill : (board.writeCpu addr value).circuit.workRamEnabled = true := by
      rw [Board.circuit_writeCpu_of_lt board high, henabled]
    rw [hwritten, Slot.readCpu?,
      Board.readCpu?_of_workRam (Board.workRam_writeCpu hram henabled low high value) hstill low
        high]
    exact congrArg some (Vector.getElem_set_self _)

end Bus

/-! ## Instructions at an address -/

namespace Machine

variable {m : Machine} {i : Instruction} {address : UInt16}

theorem operand_of_applies {operation : Operation} (h : i.Applies operation address) :
    m.operand i = m.read address := by
  have hmode := h.isAddressed
  rw [operand, h.address]
  split
  · next haccumulator =>
    rw [haccumulator] at hmode
    exact absurd hmode Bool.false_ne_true
  · rfl

theorem putBack_of_applies {operation : Operation} (h : i.Applies operation address)
    (value : UInt8) : m.putBack i value = m.write address value := by
  have hmode := h.isAddressed
  rw [putBack, h.address]
  split
  · next haccumulator =>
    rw [haccumulator] at hmode
    exact absurd hmode Bool.false_ne_true
  · rfl

theorem execute_load_at {op : LoadOp} (h : i.Applies (.load op) address) :
    m.execute i =
      ⟨{ m.cpu with registers := m.registers.load op (m.bus.read address).1 },
        (m.bus.read address).2⟩ := by
  rw [execute_load m h.operation, operand_of_applies h]
  rfl

theorem execute_modify_at {op : ModifyOp} (h : i.Applies (.modify op) address) :
    m.execute i =
      ⟨{ m.cpu with registers := (m.registers.modify op (m.bus.read address).1).2 },
        (m.bus.read address).2.write address
          (m.registers.modify op (m.bus.read address).1).1⟩ := by
  rw [execute_modify m h.operation, operand_of_applies h, putBack_of_applies h]
  rfl

/-- A change in place and an operation on the result are one instruction. -/
theorem execute_modify_parts (hstorage : m.bus.IsStorage address) {op first : ModifyOp}
    {second : LoadOp} (hparts : (Operation.modify op).parts? = some (.modify first, .load second))
    {j k : Instruction} (hi : i.Applies (.modify op) address)
    (hj : j.Applies (.modify first) address) (hk : k.Applies (.load second) address) :
    m.execute i = (m.execute j).execute k := by
  rw [execute_modify_at hi, execute_modify_at hj, execute_load_at hk, hstorage.read_snd,
    hstorage.read_write, Registers.modify_parts _ _ hparts]
  rfl

/-- Two loads of one byte are one instruction. -/
theorem execute_lax (hstorage : m.bus.IsStorage address) {j k : Instruction}
    (hi : i.Applies (.load .lax) address) (hj : j.Applies (.load .lda) address)
    (hk : k.Applies (.load .ldx) address) : m.execute i = (m.execute j).execute k := by
  rw [execute_load_at hi, execute_load_at hj, execute_load_at hk, Registers.load_lax]
  dsimp only
  rw [hstorage.read_snd, hstorage.read_snd]
  rfl

/-- An instruction with two parts is the two instructions at its address, if that is memory. -/
theorem execute_parts (hstorage : m.bus.IsStorage address) {operation first second : Operation}
    (hparts : operation.parts? = some (first, second)) {j k : Instruction}
    (hi : i.Applies operation address) (hj : j.Applies first address)
    (hk : k.Applies second address) : m.execute i = (m.execute j).execute k := by
  cases operation with
  | modify op => cases op <;> cases hparts <;> exact execute_modify_parts hstorage rfl hi hj hk
  | load op =>
    cases op <;> cases hparts
    exact execute_lax hstorage hi hj hk
  | _ => cases hparts

/-- A mask followed by a shift of the accumulator is one instruction. -/
theorem execute_alr {j k : Instruction} (hi : i.Applies (.load .alr) address)
    (hj : j.Applies (.load .and) address) (hk : k.operation = .modify .lsr)
    (haccumulator : k.mode = .accumulator) : m.execute i = (m.execute j).execute k := by
  rw [execute_load_at hi, execute_load_at hj, execute_modify _ hk, Registers.load_alr, operand,
    putBack, haccumulator]
  rfl

/-- The masked registers less the operand, with the flags of their comparison. -/
theorem execute_axs {c : Instruction} (hi : i.Applies (.load .axs) address)
    (hc : c.Applies (.load .cmp) address) :
    let masked := m.registers.a &&& m.registers.x
    let compared := (m.modifyRegisters fun r ↦ { r with a := masked }).execute c
    m.execute i = compared.modifyRegisters fun r ↦
      { m.registers with
        x := masked - (m.bus.read address).1
        p := { m.registers.p with
          carry := r.p.carry
          zero := r.p.zero
          negative := r.p.negative } } := by
  dsimp only
  rw [execute_load_at hi, execute_load_at hc]
  rfl

theorem applies_decode (m : Machine) {operation : Operation}
    (h : operation.parts?.isSome = true ∨ operation = .load .alr ∨ operation = .load .axs)
    (hdecoded : m.decode.instruction.operation = operation) :
    m.decode.instruction.Applies operation m.decode.instruction.address := by
  subst hdecoded
  exact ⟨rfl, Opcode.isAddressed_of_parts h, rfl⟩

/-- An instruction with two documented parts leaves the machine that the two leave at its address,
with all registers, flags and memory, wherever that is memory that can be written. With an operand
from anywhere, the mask and shift is the mask and then a shift of the accumulator, and the masked
difference goes into X with the flags of the comparison, the accumulator and the overflow flag left
alone. The opcodes of all these operations have their operand at an address. -/
theorem execute_eq_parts (m : Machine) (address : UInt16) :
    (m.bus.IsStorage address →
      ∀ operation first second, Operation.parts? operation = some (first, second) →
        ∀ i j k : Instruction, i.Applies operation address → j.Applies first address →
          k.Applies second address → m.execute i = (m.execute j).execute k) ∧
      (∀ i j k : Instruction, i.Applies (.load .alr) address → j.Applies (.load .and) address →
        k.operation = .modify .lsr → k.mode = .accumulator →
          m.execute i = (m.execute j).execute k) ∧
      (∀ i c : Instruction, i.Applies (.load .axs) address → c.Applies (.load .cmp) address →
        let masked := m.registers.a &&& m.registers.x
        let compared := (m.modifyRegisters fun r ↦ { r with a := masked }).execute c
        m.execute i = compared.modifyRegisters fun r ↦
          { m.registers with
            x := masked - (m.bus.read address).1
            p := { m.registers.p with
              carry := r.p.carry
              zero := r.p.zero
              negative := r.p.negative } }) ∧
      ∀ operation : Operation,
        operation.parts?.isSome = true ∨ operation = .load .alr ∨ operation = .load .axs →
          m.decode.instruction.operation = operation →
            m.decode.instruction.Applies operation m.decode.instruction.address := by
  refine ⟨?_, ?_, ?_, ?_⟩
  · intro hstorage operation first second hparts i j k hi hj hk
    exact execute_parts hstorage hparts hi hj hk
  · intro i j k hi hj hk haccumulator
    exact execute_alr hi hj hk haccumulator
  · intro i c hi hc
    exact execute_axs hi hc
  · intro operation h hdecoded
    exact m.applies_decode h hdecoded

/-- A shift and `OR` in the work memory of a board, and the two immediate instructions with the byte
`$90`, which the bus gives where there is nothing. -/
theorem execute_eq_parts_workRam :
    let m : Machine := ⟨{ registers := { a := 0x0f, x := 0xf5 } },
      .powerOn .ntsc (.holding (.assemble .mmc1 #[] #[] .horizontal false))⟩
    m.execute ⟨.modify .slo, .indirectY, 0x6123, true⟩ =
        (m.execute ⟨.modify .asl, .absolute, 0x6123, false⟩).execute
          ⟨.load .ora, .absolute, 0x6123, false⟩ ∧
      m.execute ⟨.load .alr, .immediate, 0x9055, false⟩ =
        (m.execute ⟨.load .and, .immediate, 0x9055, false⟩).execute
          ⟨.modify .lsr, .accumulator, 0, false⟩ ∧
      (m.execute ⟨.load .axs, .immediate, 0x9055, false⟩).registers.x = 0x75 ∧
      (ofOpcode 0x03).decode.instruction.Applies (.modify .slo)
        (ofOpcode 0x03).decode.instruction.address := by
  intro m
  obtain ⟨-, halr, haxs, -⟩ := execute_eq_parts m 0x9055
  have hstorage : m.bus.IsStorage 0x6123 :=
    .inr ⟨by decide, by decide, _, _, rfl, rfl, rfl⟩
  refine ⟨?_, ?_, ?_, ?_⟩
  · exact (execute_eq_parts m 0x6123).1 hstorage (.modify .slo) _ _ rfl _ _ _ ⟨rfl, rfl, rfl⟩
      ⟨rfl, rfl, rfl⟩ ⟨rfl, rfl, rfl⟩
  · exact halr _ _ _ ⟨rfl, rfl, rfl⟩ ⟨rfl, rfl, rfl⟩ rfl rfl
  · have hread : m.bus.read 0x9055 = (0x90, m.bus) := bus_read_of_readCpu? rfl rfl
    rw [haxs ⟨.load .axs, .immediate, 0x9055, false⟩ ⟨.load .cmp, .immediate, 0x9055, false⟩
      ⟨rfl, rfl, rfl⟩ ⟨rfl, rfl, rfl⟩, hread]
    change (0x0f &&& 0xf5) - 0x90 = (0x75 : UInt8)
    decide
  · exact (execute_eq_parts (ofOpcode 0x03) 0).2.2.2 (.modify .slo) (Or.inl rfl) rfl

end Machine

end Famicom
