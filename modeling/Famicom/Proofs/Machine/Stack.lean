import Famicom.Proofs.Machine.Completion
import Mathlib.Data.List.Induction

/-!
# The stack as a list

The stack is a page of memory and a pointer into it that wraps at both ends. `Machine.pushAll`
pushes bytes one after the other and `Bus.stackTop` lists those on top, the last pushed first. Up to
a page of bytes lie there in reverse order once they have been pushed (`stackTop_pushAll`), they are
pulled as they lie (`pullMany_eq`), and no other cell of memory is touched (`ram_pushAll`).

What an instruction puts on the stack and takes off it is then said by such a list: a program
counter, high byte first, and for an interrupt the status on top of it.
-/

namespace Famicom

open Machine (stackAddress)

/-! ## Cells of the stack -/

namespace Bus

/-- The cell of memory that a stack pointer points to. -/
def stackCell (sp : UInt8) : Fin 0x800 := ⟨0x100 + sp.toNat, by have := sp.toNat_lt; omega⟩

variable {b c : Bus} {sp place value : UInt8}

theorem stackCell_inj : stackCell sp = stackCell place ↔ sp = place := by
  constructor
  · intro h
    exact UInt8.toNat_inj.mp (Nat.add_left_cancel (congrArg Fin.val h))
  · rintro rfl
    rfl

theorem ofAddress_stackAddress (sp : UInt8) :
    Region.ofAddress (stackAddress sp) = .ram (stackCell sp) := by
  have hsp := sp.toNat_lt
  have haddr : (stackAddress sp).toNat = 0x100 + sp.toNat := toNat_wordOf sp 1
  have hcell : Fin.ofNat 0x800 (stackAddress sp).toNat = stackCell sp := by
    apply Fin.ext
    rw [haddr]
    exact Nat.mod_eq_of_lt (by omega)
  unfold Region.ofAddress
  dsimp only
  rw [if_pos (by omega), hcell]

/-- The byte that a stack pointer points to. -/
def stackByte (b : Bus) (sp : UInt8) : UInt8 := b.ram[stackCell sp]

/-- Stores a byte where a stack pointer points to. -/
def setStackByte (b : Bus) (sp value : UInt8) : Bus :=
  { b with ram := b.ram.set (stackCell sp) value }

theorem read_stackAddress (b : Bus) (sp : UInt8) :
    b.read (stackAddress sp) = (b.stackByte sp, b) := by
  rw [read, ofAddress_stackAddress]
  rfl

theorem write_stackAddress (b : Bus) (sp value : UInt8) :
    b.write (stackAddress sp) value = b.setStackByte sp value := by
  rw [write, ofAddress_stackAddress]
  rfl

theorem ram_setStackByte {cell : Fin 0x800} (h : cell ≠ stackCell sp) :
    (b.setStackByte sp value).ram.get cell = b.ram.get cell :=
  Vector.getElem_set_ne (stackCell sp).isLt cell.isLt fun heq ↦ h (Fin.ext heq.symm)

theorem stackByte_setStackByte_self : (b.setStackByte sp value).stackByte sp = value :=
  Vector.getElem_set_self _

theorem stackByte_setStackByte_ne (h : place ≠ sp) :
    (b.setStackByte sp value).stackByte place = b.stackByte place :=
  ram_setStackByte fun heq ↦ h (stackCell_inj.mp heq)

/-- The `n` bytes on top of the stack, the last pushed first. -/
def stackTop (b : Bus) : (sp : UInt8) → (n : Nat) → List UInt8
  | _, 0 => []
  | sp, n + 1 => b.stackByte (sp + 1) :: b.stackTop (sp + 1) n

theorem stackTop_congr (h : c.ram = b.ram) (sp : UInt8) (n : Nat) :
    c.stackTop sp n = b.stackTop sp n := by
  induction n generalizing sp with
  | zero => rfl
  | succ n ih => rw [stackTop, stackTop, ih, stackByte, stackByte, h]

/-- A byte that is not among those on top does not matter to them. -/
theorem stackTop_setStackByte {n : Nat} (h : ∀ i < n, place ≠ sp + 1 + UInt8.ofNat i) :
    (b.setStackByte place value).stackTop sp n = b.stackTop sp n := by
  induction n generalizing sp with
  | zero => rfl
  | succ n ih =>
    have hhead : sp + 1 ≠ place := by
      intro heq
      apply h 0 (Nat.succ_pos n)
      rw [← heq]
      exact (UInt8.add_zero _).symm
    have htail : ∀ i < n, place ≠ sp + 1 + 1 + UInt8.ofNat i := by
      intro i hi
      have hplace := h (i + 1) (Nat.succ_lt_succ hi)
      rwa [UInt8.ofNat_add, UInt8.add_comm (UInt8.ofNat i), ← UInt8.add_assoc] at hplace
    rw [stackTop, stackTop, ih htail, stackByte_setStackByte_ne hhead]

/-- The place that the pointer is at is not among fewer bytes than a page. -/
theorem stackTop_setStackByte_self {n : Nat} (h : n ≤ 255) :
    (b.setStackByte sp value).stackTop sp n = b.stackTop sp n := by
  refine stackTop_setStackByte fun i hi heq ↦ ?_
  have hnat := congrArg UInt8.toNat heq
  have hsp := sp.toNat_lt
  simp only [UInt8.toNat_add, UInt8.toNat_ofNat', UInt8.reduceToNat] at hnat
  omega

/-- The bus has the same bytes in memory and cartridge, apart from `count` bytes of the stack at
`sp` and below. -/
structure UsesStack (sp : UInt8) (count : Nat) (b c : Bus) : Prop where
  ram : ∀ cell, (∀ i < count, cell ≠ stackCell (sp - UInt8.ofNat i)) →
    c.ram.get cell = b.ram.get cell
  testBlock : c.testBlock = b.testBlock
  slot : c.slot = b.slot

end Bus

namespace Machine

variable {m : Machine}

/-! ## Pushing and pulling -/

@[simp] theorem registers_jump (m : Machine) (pc : UInt16) :
    (m.jump pc).registers = { m.registers with pc } := rfl

@[simp] theorem bus_jump (m : Machine) (pc : UInt16) : (m.jump pc).bus = m.bus := rfl

/-- Pushes bytes one after the other. -/
def pushAll (m : Machine) (bytes : List UInt8) : Machine := bytes.foldl push m

/-- Pulls `n` bytes one after the other. -/
def pullMany : (n : Nat) → Machine → List UInt8 × Machine
  | 0, m => ([], m)
  | n + 1, m =>
    let (value, m) := m.pull
    let (rest, m) := pullMany n m
    (value :: rest, m)

theorem push_eq (m : Machine) (value : UInt8) :
    m.push value =
      ⟨{ m.cpu with registers := { m.registers with sp := m.registers.sp - 1 } },
        m.bus.setStackByte m.registers.sp value⟩ := by
  rw [← Bus.write_stackAddress]
  rfl

theorem pull_eq (m : Machine) :
    m.pull = (m.bus.stackByte (m.registers.sp + 1), m.setStack (m.registers.sp + 1)) := by
  have hread := m.bus.read_stackAddress (m.registers.sp + 1)
  unfold pull
  dsimp only [read, setStack, modifyRegisters]
  rw [hread]

theorem pushAll_concat (m : Machine) (bytes : List UInt8) (value : UInt8) :
    m.pushAll (bytes ++ [value]) = (m.pushAll bytes).push value := by
  rw [pushAll, List.foldl_append]
  rfl

theorem sp_sub_succ (sp : UInt8) (n : Nat) :
    sp - UInt8.ofNat n - 1 = sp - UInt8.ofNat (n + 1) := by
  rw [UInt8.ofNat_add]
  grind

theorem cpu_pushAll (m : Machine) (bytes : List UInt8) :
    (m.pushAll bytes).cpu =
      { m.cpu with
        registers :=
          { m.registers with sp := m.registers.sp - UInt8.ofNat bytes.length } } := by
  induction bytes using List.reverseRecOn with
  | nil =>
    have hzero : m.registers.sp - 0 = m.registers.sp := UInt8.sub_zero _
    change m.cpu = { m.cpu with registers := { m.registers with sp := m.registers.sp - 0 } }
    rw [hzero]
    rfl
  | append_singleton bytes value ih =>
    rw [pushAll_concat, push_eq, List.length_append, List.length_singleton, ← sp_sub_succ]
    dsimp only [registers]
    rw [ih]
    rfl

theorem registers_pushAll (m : Machine) (bytes : List UInt8) :
    (m.pushAll bytes).registers =
      { m.registers with sp := m.registers.sp - UInt8.ofNat bytes.length } :=
  congrArg Cpu.registers (m.cpu_pushAll bytes)

theorem bus_pushAll (m : Machine) (bytes : List UInt8) :
    ∃ ram, (m.pushAll bytes).bus = { m.bus with ram } := by
  induction bytes using List.reverseRecOn with
  | nil => exact ⟨_, rfl⟩
  | append_singleton bytes value ih =>
    obtain ⟨ram, hbus⟩ := ih
    rw [pushAll_concat, push_eq, hbus]
    exact ⟨_, rfl⟩

/-- Bytes that have been pushed lie on top of the stack, the last first. -/
theorem stackTop_pushAll (m : Machine) (bytes : List UInt8) (h : bytes.length ≤ 256) :
    (m.pushAll bytes).bus.stackTop (m.pushAll bytes).registers.sp bytes.length =
      bytes.reverse := by
  induction bytes using List.reverseRecOn with
  | nil => rfl
  | append_singleton bytes value ih =>
    rw [List.length_append, List.length_singleton] at h ⊢
    have hback (sp : UInt8) : sp - 1 + 1 = sp := by grind
    rw [pushAll_concat, push_eq, List.reverse_append, Bus.stackTop]
    change Bus.stackByte _ ((m.pushAll bytes).registers.sp - 1 + 1) ::
      Bus.stackTop _ ((m.pushAll bytes).registers.sp - 1 + 1) _ = _
    rw [hback, Bus.stackTop_setStackByte_self (by omega), ih (by omega),
      Bus.stackByte_setStackByte_self, List.reverse_singleton, List.singleton_append]

/-- Nothing else in memory changes. -/
theorem ram_pushAll (m : Machine) {bytes : List UInt8} {cell : Fin 0x800}
    (h : ∀ i < bytes.length, cell ≠ Bus.stackCell (m.registers.sp - UInt8.ofNat i)) :
    (m.pushAll bytes).bus.ram.get cell = m.bus.ram.get cell := by
  induction bytes using List.reverseRecOn with
  | nil => rfl
  | append_singleton bytes value ih =>
    rw [List.length_append, List.length_singleton] at h
    rw [pushAll_concat, push_eq, registers_pushAll, Bus.ram_setStackByte (h _ (Nat.lt_succ_self _))]
    exact ih fun i hi ↦ h i (Nat.lt_succ_of_lt hi)

theorem usesStack_pushAll (m : Machine) (bytes : List UInt8) :
    Bus.UsesStack m.registers.sp bytes.length m.bus (m.pushAll bytes).bus := by
  obtain ⟨ram, hbus⟩ := m.bus_pushAll bytes
  exact ⟨fun cell hcell ↦ m.ram_pushAll hcell, by rw [hbus], by rw [hbus]⟩

/-- What is pulled is what lies on top of the stack, and the bus stays as it is. -/
theorem pullMany_eq (n : Nat) (m : Machine) :
    m.pullMany n =
      (m.bus.stackTop m.registers.sp n, m.setStack (m.registers.sp + UInt8.ofNat n)) := by
  induction n generalizing m with
  | zero =>
    have hzero : m.registers.sp + UInt8.ofNat 0 = m.registers.sp := UInt8.add_zero _
    rw [pullMany, hzero]
    rfl
  | succ n ih =>
    have hsp : m.registers.sp + 1 + UInt8.ofNat n = m.registers.sp + UInt8.ofNat (n + 1) := by
      rw [UInt8.ofNat_add]
      grind
    rw [pullMany, pull_eq]
    dsimp only
    rw [ih, ← hsp]
    rfl

/-- What is pushed is pulled in reverse order, up to a page of bytes. -/
theorem pullMany_pushAll (m : Machine) (bytes : List UInt8) (h : bytes.length ≤ 256) :
    ((m.pushAll bytes).pullMany bytes.length).1 = bytes.reverse ∧
      ((m.pushAll bytes).pullMany bytes.length).2.cpu = m.cpu ∧
      Bus.UsesStack m.registers.sp bytes.length m.bus
        ((m.pushAll bytes).pullMany bytes.length).2.bus := by
  have hsp (sp : UInt8) (n : Nat) : sp - UInt8.ofNat n + UInt8.ofNat n = sp := by grind
  rw [pullMany_eq]
  refine ⟨m.stackTop_pushAll bytes h, ?_, m.usesStack_pushAll bytes⟩
  change { (m.pushAll bytes).cpu with
    registers := { (m.pushAll bytes).registers with
      sp := (m.pushAll bytes).registers.sp + UInt8.ofNat bytes.length } } = m.cpu
  rw [registers_pushAll, cpu_pushAll, hsp]
  rfl

/-! ## What the instructions put there and find there -/

theorem pullWord_eq {low high : UInt8} (h : m.bus.stackTop m.registers.sp 2 = [low, high]) :
    m.pullWord = (wordOf low high, m.setStack (m.registers.sp + 2)) := by
  have hsp : m.registers.sp + 1 + 1 = m.registers.sp + 2 := by grind
  obtain ⟨hlow, hhigh⟩ : m.bus.stackByte (m.registers.sp + 1) = low ∧
      m.bus.stackByte (m.registers.sp + 1 + 1) = high := by
    simpa only [Bus.stackTop, List.cons.injEq, and_true] using h
  rw [pullWord, pull_eq]
  dsimp only
  rw [pull_eq, hlow]
  change (wordOf low (m.bus.stackByte (m.registers.sp + 1 + 1)),
    m.setStack (m.registers.sp + 1 + 1)) = _
  rw [hhigh, hsp]

theorem pullStatus_eq (m : Machine) :
    m.pullStatus =
      (m.setStack (m.registers.sp + 1)).modifyRegisters
        fun r ↦ { r with p := .pulled (m.bus.stackByte (m.registers.sp + 1)) } := by
  rw [pullStatus, pull_eq]

/-- The return from an interrupt takes the status and the program counter off the stack. -/
theorem execute_rti {i : Instruction} {p low high : UInt8} (hop : i.operation = .rti)
    (h : m.bus.stackTop m.registers.sp 3 = [p, low, high]) :
    m.execute i =
      m.modifyRegisters fun r ↦
        { r with sp := r.sp + 3, p := .pulled p, pc := wordOf low high } := by
  have hsp : m.registers.sp + 1 + 2 = m.registers.sp + 3 := by grind
  obtain ⟨hp, hword⟩ := List.cons.inj h
  rw [execute, hop]
  dsimp only
  rw [pullStatus_eq, pullWord_eq hword, hp]
  change (m.modifyRegisters fun r ↦
    { r with sp := m.registers.sp + 1 + 2, p := .pulled p, pc := wordOf low high }) = _
  rw [hsp]
  rfl

/-- The return from a subroutine takes the program counter off the stack and goes on after it. -/
theorem execute_rts {i : Instruction} {low high : UInt8} (hop : i.operation = .rts)
    (h : m.bus.stackTop m.registers.sp 2 = [low, high]) :
    m.execute i =
      m.modifyRegisters fun r ↦ { r with sp := r.sp + 2, pc := wordOf low high + 1 } := by
  rw [execute, hop]
  dsimp only
  rw [pullWord_eq h]
  rfl

/-- A call puts one less than the address to go on at on the stack. -/
theorem execute_jsr {i : Instruction} (hop : i.operation = .jsr) :
    m.execute i =
      (m.pushAll [highByte (m.registers.pc - 1), lowByte (m.registers.pc - 1)]).jump
        i.address := by
  rw [execute, hop]
  rfl

theorem suspended_eq (m : Machine) (breakMark : Bool) :
    m.suspended breakMark =
      (m.pushAll [highByte m.registers.pc, lowByte m.registers.pc,
          m.registers.p.pushed breakMark]).modifyRegisters
        fun r ↦ { r with p := { r.p with interruptDisable := true } } := rfl

theorem registers_suspended (m : Machine) (breakMark : Bool) :
    (m.suspended breakMark).registers =
      { m.registers with
        sp := m.registers.sp - 3
        p := { m.registers.p with interruptDisable := true } } := by
  have hpushed := m.registers_pushAll [highByte m.registers.pc, lowByte m.registers.pc,
    m.registers.p.pushed breakMark]
  rw [suspended_eq]
  exact congrArg (fun r : Registers ↦ { r with p := { r.p with interruptDisable := true } }) hpushed

end Machine

end Famicom
