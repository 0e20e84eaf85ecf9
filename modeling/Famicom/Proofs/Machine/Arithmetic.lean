import Mathlib.Data.Nat.Digits.Defs
import Mathlib.Tactic.Linarith
import Famicom.Proofs.Bus.Isolation
import Famicom.Proofs.Machine.Access

/-!
# Arithmetic on numbers of several bytes

The processor calculates with bytes. A program that needs greater numbers takes them byte by byte,
from low to high for sums and from high to low for halves, and the carry flag goes from one
instruction to the next. For `n` bytes this is exact (`Machine.Chain.multibyte_exact`),

```text
ADC …       r + 256ⁿ · C  =  a + b + c
SBC …       r  =  a - b - (1 - c)   mod 256ⁿ,   C = 1  ↔  b + (1 - c) ≤ a
ASL, ROL …  r + 256ⁿ · C  =  2 · a
LSR, ROR …  2 · r + C  =  a,
```

and the overflow and negative flags that the highest byte leaves are those of the whole number in
two's complement.

What happens between the instructions of a chain does not matter, as long as the carry stays: a
`Machine.Chain` is a list of executions, each with the machine it finds, and the only thing that
joins them is the carry.

## What carries the proofs

Each instruction satisfies the equation for one byte. A sum of `n + 1` bytes comes from a byte below
a sum of `n` bytes, whose lower carry is what the byte has left (`IsSum.cons`). The two flags go
through because a byte below a number changes neither its sign nor whether it fits: there is an even
number of numbers of `n` bytes, and the lowest byte does not reach from one pair to the next.
Subtraction is the addition of the complement (`IsSum.isDifference`).
-/

namespace Famicom

/-! ## Numbers of several bytes -/

/-- The number that has these bytes, the lowest first. -/
def littleEndian (bytes : List UInt8) : Nat := Nat.ofDigits 256 (bytes.map UInt8.toNat)

/-- A number of `n` bytes read in two's complement. -/
def signedValue (n x : Nat) : Int := if 2 * x < 256 ^ n then x else x - (256 ^ n : Nat)

/-- A number can be written with `n` bytes in two's complement. -/
def FitsSigned (n : Nat) (z : Int) : Prop :=
  -((256 ^ n : Nat) : Int) ≤ 2 * z ∧ 2 * z < (256 ^ n : Nat)

instance (n : Nat) (z : Int) : Decidable (FitsSigned n z) := inferInstanceAs (Decidable (_ ∧ _))

theorem littleEndian_cons (byte : UInt8) (bytes : List UInt8) :
    littleEndian (byte :: bytes) = byte.toNat + 256 * littleEndian bytes := Nat.ofDigits_cons

theorem littleEndian_singleton (byte : UInt8) : littleEndian [byte] = byte.toNat :=
  Nat.ofDigits_singleton

theorem littleEndian_append (low high : List UInt8) :
    littleEndian (low ++ high) = littleEndian low + 256 ^ low.length * littleEndian high := by
  rw [littleEndian, List.map_append, Nat.ofDigits_append, List.length_map]
  rfl

/-- Listed from high to low, the first byte is the highest. -/
theorem littleEndian_reverse_map {α : Type} (byte : α → UInt8) (first : α) (rest : List α) :
    littleEndian ((first :: rest).map byte).reverse =
      littleEndian (rest.map byte).reverse + 256 ^ rest.length * (byte first).toNat := by
  rw [List.map_cons, List.reverse_cons, littleEndian_append, List.length_reverse, List.length_map,
    littleEndian_singleton]

theorem littleEndian_lt (bytes : List UInt8) : littleEndian bytes < 256 ^ bytes.length := by
  have hbytes : ∀ digit ∈ bytes.map UInt8.toNat, digit < 256 := by
    intro digit hdigit
    obtain ⟨byte, -, rfl⟩ := List.mem_map.mp hdigit
    exact byte.toNat_lt
  have hbound := Nat.ofDigits_lt_base_pow_length (by decide) hbytes
  rwa [List.length_map] at hbound

/-- The complement of all bytes is what is missing to the greatest number. -/
theorem littleEndian_complement (bytes : List UInt8) :
    littleEndian (bytes.map (~~~ ·)) + littleEndian bytes + 1 = 256 ^ bytes.length := by
  induction bytes with
  | nil => rfl
  | cons byte bytes ih =>
    have hbyte : (~~~byte).toNat = 255 - byte.toNat := by
      rw [UInt8.toNat_not]
      rfl
    have hlt := byte.toNat_lt
    rw [List.map_cons, littleEndian_cons, littleEndian_cons, List.length_cons, Nat.pow_succ]
    omega

/-- A power of 256 is even, so there are as many negative numbers as others. -/
theorem exists_half (n : Nat) : ∃ half, 256 ^ (n + 1) = 2 * half ∧ 256 ^ (n + 2) = 512 * half := by
  have hlower : 256 ^ (n + 1) = 256 ^ n * 256 := Nat.pow_succ 256 n
  have hupper : 256 ^ (n + 2) = 256 ^ (n + 1) * 256 := Nat.pow_succ 256 (n + 1)
  exact ⟨128 * 256 ^ n, by omega, by omega⟩

/-- The sign of a number is in its highest byte. -/
theorem signedValue_cons (n x : Nat) {low : Nat} (hlow : low < 256) :
    signedValue (n + 2) (low + 256 * x) = low + 256 * signedValue (n + 1) x := by
  obtain ⟨half, hhalf, hpower⟩ := exists_half n
  rw [signedValue, signedValue, hpower, hhalf]
  split <;> split <;> omega

theorem fitsSigned_cons (n : Nat) (z : Int) {low : Nat} (hlow : low < 256) :
    FitsSigned (n + 2) (low + 256 * z) ↔ FitsSigned (n + 1) z := by
  obtain ⟨half, hhalf, hpower⟩ := exists_half n
  rw [FitsSigned, FitsSigned, hpower, hhalf]
  omega

/-! ## Sums -/

/-- A sum of `n` bytes as the processor leaves it, with the flags of its highest byte. -/
structure IsSum (n a b c r : Nat) (p : Status) : Prop where
  balance : r + 256 ^ n * p.carry.toNat = a + b + c
  overflow : p.overflow = true ↔ ¬FitsSigned n (signedValue n a + signedValue n b + c)
  negative : p.negative = true ↔ signedValue n r < 0

namespace Registers

variable (r : Registers) (value : UInt8)

theorem toNat_addWithCarry :
    (r.addWithCarry value).a.toNat = (r.a.toNat + value.toNat + r.carryIn) % 256 :=
  UInt8.toNat_ofNat'

theorem carryIn_le : r.carryIn ≤ 1 := Bool.toNat_le r.p.carry

/-- Accumulator and carry together are the sum. -/
theorem balance_addWithCarry :
    (r.addWithCarry value).a.toNat + 256 * (r.addWithCarry value).p.carry.toNat =
      r.a.toNat + value.toNat + r.carryIn := by
  have hcarry : (r.addWithCarry value).p.carry =
      decide (255 < r.a.toNat + value.toNat + r.carryIn) := rfl
  have ha := r.a.toNat_lt
  have hvalue := value.toNat_lt
  have hin := r.carryIn_le
  rw [toNat_addWithCarry, hcarry]
  by_cases hover : 255 < r.a.toNat + value.toNat + r.carryIn
  · rw [decide_eq_true hover, Bool.toNat_true]
    omega
  · rw [decide_eq_false hover, Bool.toNat_false]
    omega

theorem isNegative_eq (value : UInt8) :
    Status.isNegative value = decide (128 ≤ value.toNat) :=
  decide_eq_decide.mpr UInt8.le_iff_toNat_le

theorem isSum_addWithCarry :
    IsSum 1 r.a.toNat value.toNat r.carryIn (r.addWithCarry value).a.toNat
      (r.addWithCarry value).p := by
  have ha := r.a.toNat_lt
  have hvalue := value.toNat_lt
  have hin := r.carryIn_le
  have hsum := r.toNat_addWithCarry value
  refine ⟨?_, ?_, ?_⟩
  · rw [Nat.pow_one]
    exact r.balance_addWithCarry value
  · have hoverflow : (r.addWithCarry value).p.overflow =
        (Status.isNegative r.a == Status.isNegative value &&
          Status.isNegative (r.addWithCarry value).a != Status.isNegative r.a) := rfl
    rw [hoverflow, Bool.and_eq_true, beq_iff_eq, bne_iff_ne, ne_eq, isNegative_eq, isNegative_eq,
      isNegative_eq, decide_eq_decide, decide_eq_decide, hsum, FitsSigned, signedValue, signedValue,
      Nat.pow_one]
    split <;> split <;> omega
  · have hnegative : (r.addWithCarry value).p.negative =
        Status.isNegative (r.addWithCarry value).a := rfl
    rw [hnegative, isNegative_eq, decide_eq_true_iff, signedValue, Nat.pow_one]
    split <;> omega

end Registers

/-- A sum of lower bytes goes below a sum that has taken its carry. -/
theorem IsSum.cons {n a b r c lowA lowB lowR : Nat} {carry : Bool} {p : Status}
    (h : IsSum (n + 1) a b carry.toNat r p) (hlow : lowR + 256 * carry.toNat = lowA + lowB + c)
    (ha : lowA < 256) (hb : lowB < 256) (hr : lowR < 256) :
    IsSum (n + 2) (lowA + 256 * a) (lowB + 256 * b) c (lowR + 256 * r) p := by
  refine ⟨?_, ?_, ?_⟩
  · have hbalance := h.balance
    rw [Nat.pow_succ, Nat.mul_right_comm]
    omega
  · have hsum : signedValue (n + 2) (lowA + 256 * a) + signedValue (n + 2) (lowB + 256 * b) + c =
        lowR + 256 * (signedValue (n + 1) a + signedValue (n + 1) b + carry.toNat) := by
      rw [signedValue_cons n a ha, signedValue_cons n b hb]
      omega
    rw [h.overflow, hsum, fitsSigned_cons n _ hr]
  · rw [h.negative, signedValue_cons n r hr]
    omega

theorem signedValue_complement (n : Nat) {x : Nat} (hx : x < 256 ^ (n + 1)) :
    signedValue (n + 1) (256 ^ (n + 1) - 1 - x) = -1 - signedValue (n + 1) x := by
  obtain ⟨half, hhalf, -⟩ := exists_half n
  rw [signedValue, signedValue]
  rw [hhalf] at hx ⊢
  split <;> split <;> omega

/-- A difference of `n` bytes as the processor leaves it. The carry stands for no borrow. -/
structure IsDifference (n a b c r : Nat) (p : Status) : Prop where
  remainder : (r : Int) = (a - b - (1 - c)) % (256 ^ n : Nat)
  carry : p.carry = true ↔ b + (1 - c) ≤ a
  overflow : p.overflow = true ↔ ¬FitsSigned n (signedValue n a - signedValue n b - (1 - c))
  negative : p.negative = true ↔ signedValue n r < 0

/-- Adding the complement subtracts. -/
theorem IsSum.isDifference {n a b c r : Nat} {p : Status}
    (h : IsSum (n + 1) a (256 ^ (n + 1) - 1 - b) c r p) (hb : b < 256 ^ (n + 1))
    (hr : r < 256 ^ (n + 1)) (hc : c ≤ 1) : IsDifference (n + 1) a b c r p := by
  have hbalance := h.balance
  have hsigned := signedValue_complement n hb
  have hoverflow := h.overflow
  rw [hsigned] at hoverflow
  generalize hpower : 256 ^ (n + 1) = power at hbalance hb hr
  refine ⟨?_, ?_, ?_, h.negative⟩
  · have hdifference : (a : Int) - b - (1 - c) = r + power * ((p.carry.toNat : Int) - 1) := by
      rw [Int.mul_sub]
      omega
    rw [hpower, hdifference, Int.add_mul_emod_self_left]
    exact (Int.emod_eq_of_lt (Int.natCast_nonneg r) (Int.ofNat_lt.mpr hr)).symm
  · cases hcarry : p.carry with
    | true =>
      rw [hcarry, Bool.toNat_true] at hbalance
      simp only [true_iff]
      omega
    | false =>
      rw [hcarry, Bool.toNat_false] at hbalance
      simp only [Bool.false_eq_true, false_iff]
      omega
  · rw [hoverflow]
    have hsum : signedValue (n + 1) a + (-1 - signedValue (n + 1) b) + c =
        signedValue (n + 1) a - signedValue (n + 1) b - (1 - c) := by omega
    rw [hsum]

/-! ## Shifts of a byte -/

namespace Registers

variable (r : Registers) (value : UInt8)

/-- Shifting a byte left doubles it, with the carry at its upper end. -/
theorem balance_shiftLeft {low : Nat} (hlow : low ≤ 1) :
    (r.shiftLeft value low).1.toNat + 256 * (r.shiftLeft value low).2.p.carry.toNat =
      2 * value.toNat + low := by
  have hvalue := value.toNat_lt
  have hresult : (r.shiftLeft value low).1.toNat = (value.toNat * 2 + low) % 256 :=
    UInt8.toNat_ofNat'
  have hcarry : (r.shiftLeft value low).2.p.carry.toNat = value.toNat / 128 % 2 :=
    Nat.toNat_testBit _ _
  rw [hresult, hcarry]
  omega

/-- Shifting a byte right halves it, with the carry as the remainder. -/
theorem balance_shiftRight {high : Nat} (hhigh : high ≤ 1) :
    2 * (r.shiftRight value high).1.toNat + (r.shiftRight value high).2.p.carry.toNat =
      value.toNat + 256 * high := by
  have hvalue := value.toNat_lt
  have hresult : (r.shiftRight value high).1.toNat = (value.toNat / 2 + high * 128) % 256 :=
    UInt8.toNat_ofNat'
  have hcarry : (r.shiftRight value high).2.p.carry.toNat = value.toNat / 1 % 2 :=
    Nat.toNat_testBit _ _
  rw [hresult, hcarry]
  omega

end Registers

/-! ## The decimal flag -/

namespace Registers

/-- The registers with the decimal flag set or cleared. -/
def withDecimal (r : Registers) (decimal : Bool) : Registers :=
  { r with p := { r.p with decimal } }

variable (r : Registers) (decimal : Bool) (value : UInt8)

/-- No instruction that reads an operand looks at the decimal flag or changes it. -/
theorem load_withDecimal (op : LoadOp) :
    (r.withDecimal decimal).load op value = (r.load op value).withDecimal decimal := by
  cases op <;> rfl

theorem modify_withDecimal (op : ModifyOp) :
    (r.withDecimal decimal).modify op value =
      ((r.modify op value).1, (r.modify op value).2.withDecimal decimal) := by
  cases op <;> rfl

end Registers

/-! ## Chains of instructions -/

namespace Machine

/-- The machine with the decimal flag set or cleared. -/
def withDecimal (m : Machine) (decimal : Bool) : Machine :=
  m.modifyRegisters (·.withDecimal decimal)

theorem operand_withDecimal (m : Machine) (decimal : Bool) (i : Instruction) :
    (m.withDecimal decimal).operand i =
      ((m.operand i).1, (m.operand i).2.withDecimal decimal) := by
  unfold operand
  split <;> rfl

theorem putBack_withDecimal (m : Machine) (decimal : Bool) (i : Instruction) (value : UInt8) :
    (m.withDecimal decimal).putBack i value = (m.putBack i value).withDecimal decimal := by
  unfold putBack
  split <;> rfl

theorem execute_load (m : Machine) {i : Instruction} {op : LoadOp} (h : i.operation = .load op) :
    m.execute i = (m.operand i).2.modifyRegisters (·.load op (m.operand i).1) := by
  rw [execute, h]

theorem execute_modify (m : Machine) {i : Instruction} {op : ModifyOp}
    (h : i.operation = .modify op) :
    m.execute i = ((m.operand i).2.modifyRegisters fun _ ↦
      (m.registers.modify op (m.operand i).1).2).putBack i
        (m.registers.modify op (m.operand i).1).1 := by
  rw [execute, h, ← m.registers_operand i]

/-- Neither class of arithmetic instructions looks at the decimal flag or changes it. -/
theorem execute_withDecimal (m : Machine) {i : Instruction}
    (h : (∃ op, i.operation = .load op) ∨ ∃ op, i.operation = .modify op) (decimal : Bool) :
    (m.withDecimal decimal).execute i = (m.execute i).withDecimal decimal := by
  rcases h with ⟨op, hop⟩ | ⟨op, hop⟩
  · have hload := (m.operand i).2.registers.load_withDecimal decimal (m.operand i).1 op
    rw [execute_load _ hop, execute_load _ hop, operand_withDecimal]
    exact congrArg (fun registers ↦ (m.operand i).2.modifyRegisters fun _ ↦ registers) hload
  · have hmodify := m.registers.modify_withDecimal decimal (m.operand i).1 op
    have hregisters : (m.withDecimal decimal).registers = m.registers.withDecimal decimal := rfl
    rw [execute_modify _ hop, execute_modify _ hop, operand_withDecimal, hregisters, hmodify]
    exact putBack_withDecimal ((m.operand i).2.modifyRegisters fun _ ↦ _) decimal i _

/-- What is put back is found in its place, if that is the accumulator or memory. -/
theorem operand_putBack (m : Machine) {i : Instruction} (value : UInt8)
    (h : i.mode = .accumulator ∨ Bus.isMemory i.address = true) :
    ((m.putBack i value).operand i).1 = value := by
  by_cases haccumulator : i.mode = .accumulator
  · rw [putBack, operand, haccumulator]
    rfl
  · have hmemory := h.resolve_left haccumulator
    have hshared : Bus.sharesByte i.address i.address = true := decide_eq_true (Or.inl rfl)
    have hread := Bus.read_write (b := m.bus) hmemory i.address value
    rw [if_pos hshared] at hread
    have hput : m.putBack i value = m.write i.address value := by
      unfold putBack
      split
      · next hmode => exact absurd hmode haccumulator
      · rfl
    rw [hput]
    unfold operand
    split
    · next hmode => exact absurd hmode haccumulator
    · exact hread

/-- An instruction and the machine that it finds. -/
structure Execution where
  before : Machine
  instruction : Instruction

namespace Execution

variable (e : Execution)

/-- The machine that the instruction leaves. -/
def after : Machine := e.before.execute e.instruction

/-- The accumulator that the instruction finds. -/
def accumulator : UInt8 := e.before.registers.a

/-- The byte that the instruction works on. -/
def input : UInt8 := (e.before.operand e.instruction).1

/-- The byte that the instruction makes: the one it puts back, or else the accumulator. -/
def result : UInt8 :=
  match e.instruction.operation with
  | .modify op => (e.before.registers.modify op e.input).1
  | _ => e.after.registers.a

/-- The carry that the instruction finds. -/
def carryIn : Bool := e.before.registers.p.carry

/-- The carry that the instruction leaves. -/
def carryOut : Bool := e.after.registers.p.carry

/-- The instruction is of this operation. -/
def Runs (operation : Operation) : Prop := e.instruction.operation = operation

instance (operation : Operation) : Decidable (e.Runs operation) :=
  inferInstanceAs (Decidable (_ = _))

/-- The execution with the decimal flag set or cleared before. -/
def withDecimal (decimal : Bool) : Execution := ⟨e.before.withDecimal decimal, e.instruction⟩

variable {e}

theorem registers_after_load {op : LoadOp} (h : e.Runs (.load op)) :
    e.after.registers = e.before.registers.load op e.input := by
  rw [after, execute_load _ h, ← registers_operand e.before e.instruction]
  rfl

theorem result_load {op : LoadOp} (h : e.Runs (.load op)) : e.result = e.after.registers.a := by
  rw [result, h]

theorem result_modify {op : ModifyOp} (h : e.Runs (.modify op)) :
    e.result = (e.before.registers.modify op e.input).1 := by
  rw [result, h]

theorem result_withDecimal (e : Execution)
    (h : (∃ op, e.Runs (.load op)) ∨ ∃ op, e.Runs (.modify op)) (decimal : Bool) :
    (e.withDecimal decimal).result = e.result := by
  have hinput : (e.withDecimal decimal).input = e.input := by
    rw [input, withDecimal, operand_withDecimal]
    rfl
  rcases h with ⟨op, hop⟩ | ⟨op, hop⟩
  · have hafter : (e.withDecimal decimal).after = e.after.withDecimal decimal :=
      e.before.execute_withDecimal (Or.inl ⟨op, hop⟩) decimal
    rw [result_load hop, result_load (e := e.withDecimal decimal) hop, hafter]
    rfl
  · have hregisters : (e.withDecimal decimal).before.registers =
        e.before.registers.withDecimal decimal := rfl
    rw [result_modify hop, result_modify (e := e.withDecimal decimal) hop, hinput, hregisters,
      Registers.modify_withDecimal]

theorem carryOut_modify {op : ModifyOp} (h : e.Runs (.modify op)) :
    e.carryOut = (e.before.registers.modify op e.input).2.p.carry := by
  rw [carryOut, after, execute_modify _ h]
  unfold putBack
  split <;> rfl

theorem balance_asl (h : e.Runs (.modify .asl)) :
    e.result.toNat + 256 * e.carryOut.toNat = 2 * e.input.toNat := by
  rw [result_modify h, carryOut_modify h]
  exact e.before.registers.balance_shiftLeft e.input (Nat.zero_le 1)

theorem balance_rol (h : e.Runs (.modify .rol)) :
    e.result.toNat + 256 * e.carryOut.toNat = 2 * e.input.toNat + e.carryIn.toNat := by
  rw [result_modify h, carryOut_modify h]
  exact e.before.registers.balance_shiftLeft e.input (Bool.toNat_le _)

theorem balance_lsr (h : e.Runs (.modify .lsr)) :
    2 * e.result.toNat + e.carryOut.toNat = e.input.toNat := by
  rw [result_modify h, carryOut_modify h]
  exact e.before.registers.balance_shiftRight e.input (Nat.zero_le 1)

theorem balance_ror (h : e.Runs (.modify .ror)) :
    2 * e.result.toNat + e.carryOut.toNat = e.input.toNat + 256 * e.carryIn.toNat := by
  rw [result_modify h, carryOut_modify h]
  exact e.before.registers.balance_shiftRight e.input (Bool.toNat_le _)

end Execution

/-- A chain of instructions. Each of them finds the carry that the one before has left, whatever has
been done in between. -/
structure Chain where
  first : Execution
  rest : List Execution
  passesCarry : (first :: rest).IsChain fun e next ↦ next.carryIn = e.carryOut

namespace Chain

variable (c : Chain)

/-- The instructions of a chain in their order. -/
def executions : List Execution := c.first :: c.rest

/-- How many instructions there are. -/
def length : Nat := c.executions.length

/-- The last instruction. -/
def last : Execution := c.executions.getLast (List.cons_ne_nil c.first c.rest)

/-- The number with a byte from each instruction of a chain that goes from low to high. -/
def number (byte : Execution → UInt8) : Nat := littleEndian (c.executions.map byte)

/-- The number with a byte from each instruction of a chain that goes from high to low. -/
def numberDown (byte : Execution → UInt8) : Nat := littleEndian (c.executions.map byte).reverse

/-- The same number in two's complement. -/
def signed (byte : Execution → UInt8) : Int := signedValue c.length (c.number byte)

/-- The carry that a chain finds. -/
def carryIn : Nat := c.first.carryIn.toNat

/-- The flags that a chain leaves. -/
def flags : Status := c.last.after.registers.p

end Chain

namespace Execution

theorem isSum_executions (change : UInt8 → UInt8) {first : Execution} {rest : List Execution}
    (hchain : (first :: rest).IsChain fun e next ↦ next.carryIn = e.carryOut)
    (hadd : ∀ e ∈ first :: rest,
      e.after.registers = e.before.registers.addWithCarry (change e.input)) :
    IsSum (rest.length + 1) (littleEndian ((first :: rest).map accumulator))
      (littleEndian ((first :: rest).map fun e ↦ change e.input)) first.carryIn.toNat
      (littleEndian ((first :: rest).map fun e ↦ e.after.registers.a))
      ((first :: rest).getLast (List.cons_ne_nil first rest)).after.registers.p := by
  induction rest generalizing first with
  | nil =>
    have hfirst := hadd first List.mem_cons_self
    simp only [List.map_cons, List.map_nil, List.getLast_singleton, List.length_nil,
      littleEndian_singleton, hfirst]
    exact first.before.registers.isSum_addWithCarry (change first.input)
  | cons second rest ih =>
    have hfirst := hadd first List.mem_cons_self
    obtain ⟨hpass, hrest⟩ := List.isChain_cons_cons.mp hchain
    have hhigh := ih hrest fun e he ↦ hadd e (List.mem_cons_of_mem _ he)
    have hlow := first.before.registers.balance_addWithCarry (change first.input)
    rw [← hfirst] at hlow
    rw [hpass] at hhigh
    exact hhigh.cons hlow first.accumulator.toNat_lt (change first.input).toNat_lt
      first.after.registers.a.toNat_lt

/-- Shifts left, the first of which may take in any bit. -/
theorem balance_left {first : Execution} {rest : List Execution}
    (hchain : (first :: rest).IsChain fun e next ↦ next.carryIn = e.carryOut)
    (hrest : ∀ e ∈ rest, e.Runs (.modify .rol)) (low : Nat)
    (hfirst : first.result.toNat + 256 * first.carryOut.toNat = 2 * first.input.toNat + low) :
    littleEndian ((first :: rest).map result) + 256 ^ (rest.length + 1) *
        ((first :: rest).getLast (List.cons_ne_nil first rest)).carryOut.toNat =
      2 * littleEndian ((first :: rest).map input) + low := by
  induction rest generalizing first low with
  | nil =>
    rw [List.map_singleton, List.map_singleton, littleEndian_singleton, littleEndian_singleton]
    exact hfirst
  | cons second rest ih =>
    obtain ⟨hpass, hlinked⟩ := List.isChain_cons_cons.mp hchain
    have hsecond := balance_rol (hrest second List.mem_cons_self)
    rw [hpass] at hsecond
    have hhigh := ih hlinked (fun e he ↦ hrest e (List.mem_cons_of_mem _ he)) _ hsecond
    change first.result.toNat + 256 * littleEndian ((second :: rest).map result) +
        256 ^ (rest.length + 1 + 1) * _ =
      2 * (first.input.toNat + 256 * littleEndian ((second :: rest).map input)) + low
    rw [List.getLast_cons_cons, Nat.pow_succ, Nat.mul_right_comm]
    omega

/-- Shifts right, the first of which may take in any bit. -/
theorem balance_right {first : Execution} {rest : List Execution}
    (hchain : (first :: rest).IsChain fun e next ↦ next.carryIn = e.carryOut)
    (hrest : ∀ e ∈ rest, e.Runs (.modify .ror)) (high : Nat)
    (hfirst : 2 * first.result.toNat + first.carryOut.toNat = first.input.toNat + 256 * high) :
    2 * littleEndian ((first :: rest).map result).reverse +
        ((first :: rest).getLast (List.cons_ne_nil first rest)).carryOut.toNat =
      littleEndian ((first :: rest).map input).reverse + 256 ^ (rest.length + 1) * high := by
  induction rest generalizing first high with
  | nil =>
    rw [List.map_singleton, List.map_singleton, List.reverse_singleton, List.reverse_singleton,
      littleEndian_singleton, littleEndian_singleton]
    exact hfirst
  | cons second rest ih =>
    obtain ⟨hpass, hlinked⟩ := List.isChain_cons_cons.mp hchain
    have hsecond := balance_ror (hrest second List.mem_cons_self)
    rw [hpass] at hsecond
    have hlow := ih hlinked (fun e he ↦ hrest e (List.mem_cons_of_mem _ he)) _ hsecond
    have hscaled := congrArg (256 ^ (rest.length + 1) * ·) hfirst
    rw [littleEndian_reverse_map result first, littleEndian_reverse_map input first,
      List.getLast_cons_cons, List.length_cons, Nat.pow_succ 256 (rest.length + 1)]
    linarith

end Execution

namespace Chain

open Execution

variable {c : Chain}

theorem length_map (byte : Execution → UInt8) : (c.executions.map byte).length = c.length :=
  List.length_map byte

theorem number_lt (byte : Execution → UInt8) : c.number byte < 256 ^ c.length := by
  rw [← length_map byte]
  exact littleEndian_lt _

theorem number_congr {byte other : Execution → UInt8} (h : ∀ e ∈ c.executions, byte e = other e) :
    c.number byte = c.number other := congrArg littleEndian (List.map_congr_left h)

theorem isSum_adc (h : ∀ e ∈ c.executions, e.Runs (.load .adc)) :
    IsSum c.length (c.number accumulator) (c.number input) c.carryIn (c.number result)
      c.flags := by
  have hresult := number_congr fun e he ↦ result_load (h e he)
  have hsum := isSum_executions id c.passesCarry fun e he ↦ registers_after_load (h e he)
  rw [hresult]
  exact hsum

theorem isDifference_sbc (h : ∀ e ∈ c.executions, e.Runs (.load .sbc)) :
    IsDifference c.length (c.number accumulator) (c.number input) c.carryIn (c.number result)
      c.flags := by
  have hresult := number_congr fun e he ↦ result_load (h e he)
  have hsum := isSum_executions (~~~ ·) c.passesCarry fun e he ↦ registers_after_load (h e he)
  have hcomplement := littleEndian_complement (c.executions.map input)
  rw [List.map_map, length_map] at hcomplement
  have hinput : littleEndian ((c.first :: c.rest).map fun e ↦ ~~~e.input) =
      256 ^ (c.rest.length + 1) - 1 - c.number input := by
    change _ = 256 ^ c.length - 1 - c.number input
    rw [← hcomplement]
    change _ = _ + c.number input + 1 - 1 - c.number input
    rw [Nat.add_sub_cancel, Nat.add_sub_cancel]
    rfl
  rw [hinput] at hsum
  rw [hresult]
  exact hsum.isDifference (number_lt input) (number_lt _) (Bool.toNat_le _)

/-- Chained instructions calculate exactly with numbers of any length, whatever is done in between
as long as the carry is kept. Additions give the sum, its carry, its sign and whether it overflows
in two's complement; subtractions the difference, the absence of a borrow, and the same flags.
Shifts to the left double, with the bit lost in the carry, and shifts to the right halve, with the
remainder in the carry. None of it depends on the decimal flag, and a byte that is shifted is put
back in its place. -/
theorem multibyte_exact (c : Chain) :
    ((∀ e ∈ c.executions, e.Runs (.load .adc)) →
        c.number result + 256 ^ c.length * c.flags.carry.toNat =
            c.number accumulator + c.number input + c.carryIn ∧
          (c.flags.overflow = true ↔
            ¬FitsSigned c.length (c.signed accumulator + c.signed input + c.carryIn)) ∧
          (c.flags.negative = true ↔ c.signed result < 0)) ∧
      ((∀ e ∈ c.executions, e.Runs (.load .sbc)) →
        (c.number result : Int) =
            (c.number accumulator - c.number input - (1 - c.carryIn)) % (256 ^ c.length : Nat) ∧
          (c.flags.carry = true ↔ c.number input + (1 - c.carryIn) ≤ c.number accumulator) ∧
          (c.flags.overflow = true ↔
            ¬FitsSigned c.length (c.signed accumulator - c.signed input - (1 - c.carryIn))) ∧
          (c.flags.negative = true ↔ c.signed result < 0)) ∧
      (c.first.Runs (.modify .asl) → (∀ e ∈ c.rest, e.Runs (.modify .rol)) →
        c.number result + 256 ^ c.length * c.flags.carry.toNat = 2 * c.number input) ∧
      (c.first.Runs (.modify .lsr) → (∀ e ∈ c.rest, e.Runs (.modify .ror)) →
        2 * c.numberDown result + c.flags.carry.toNat = c.numberDown input) ∧
      (∀ e : Execution, (∃ op, e.Runs (.load op)) ∨ (∃ op, e.Runs (.modify op)) → ∀ decimal,
        (e.withDecimal decimal).after = e.after.withDecimal decimal ∧
          (e.withDecimal decimal).result = e.result) ∧
      ∀ (e : Execution) op, e.Runs (.modify op) →
        e.instruction.mode = .accumulator ∨ Bus.isMemory e.instruction.address = true →
        (e.after.operand e.instruction).1 = e.result := by
  refine ⟨?_, ?_, ?_, ?_, ?_, ?_⟩
  · intro hadc
    have hsum := isSum_adc hadc
    exact ⟨hsum.balance, hsum.overflow, hsum.negative⟩
  · intro hsbc
    have hdifference := isDifference_sbc hsbc
    exact ⟨hdifference.remainder, hdifference.carry, hdifference.overflow, hdifference.negative⟩
  · intro hasl hrol
    exact balance_left c.passesCarry hrol 0 (balance_asl hasl)
  · intro hlsr hror
    exact balance_right c.passesCarry hror 0 (balance_lsr hlsr)
  · intro e hruns decimal
    exact ⟨e.before.execute_withDecimal hruns decimal, e.result_withDecimal hruns decimal⟩
  · intro e op hop hplace
    rw [after, execute_modify _ hop, result_modify hop]
    exact operand_putBack _ _ hplace

/-- Two instructions on the bytes `$80` and `$41`, with `$90` and then `$70` in the accumulator. -/
def twoBytes (low high : Operation) : Chain :=
  let first : Execution := ⟨⟨{ registers := { a := 0x90 } }, .powerOn .ntsc .empty⟩,
    ⟨low, .absolute, 0x8000, false⟩⟩
  let second : Execution := ⟨⟨{ registers := { a := 0x70, p := first.after.registers.p } },
    .powerOn .ntsc .empty⟩, ⟨high, .absolute, 0x4100, false⟩⟩
  ⟨first, [second], .cons_cons rfl (.singleton second)⟩

/-- The sum `$7090 + $4180`, the difference of the same numbers and their shifts; a sum with the
decimal flag set, and a shift of the accumulator. -/
theorem multibyte_exact_twoBytes :
    (twoBytes (.load .adc) (.load .adc)).number result = 0xb210 ∧
      (twoBytes (.load .adc) (.load .adc)).flags.overflow = true ∧
      (twoBytes (.load .sbc) (.load .sbc)).number result = 0x2f0f ∧
      (twoBytes (.modify .asl) (.modify .rol)).number result = 0x8300 ∧
      (twoBytes (.modify .lsr) (.modify .ror)).numberDown result = 0x4020 ∧
      ((twoBytes (.load .adc) (.load .adc)).first.withDecimal true).result = 0x10 ∧
      ((Execution.mk ⟨{ registers := { a := 0x41 } }, .powerOn .ntsc .empty⟩
        ⟨.modify .asl, .accumulator, 0, false⟩).after.operand
          ⟨.modify .asl, .accumulator, 0, false⟩).1 = 0x82 := by
  have hadc := (multibyte_exact (twoBytes (.load .adc) (.load .adc))).1 (by decide)
  have hsbc := (multibyte_exact (twoBytes (.load .sbc) (.load .sbc))).2.1 (by decide)
  have hasl := (multibyte_exact (twoBytes (.modify .asl) (.modify .rol))).2.2.1 rfl (by decide)
  have hlsr := (multibyte_exact (twoBytes (.modify .lsr) (.modify .ror))).2.2.2.1 rfl (by decide)
  obtain ⟨-, -, -, -, hdecimal, hplace⟩ := multibyte_exact (twoBytes (.load .adc) (.load .adc))
  refine ⟨?_, ?_, ?_, ?_, ?_, ?_, ?_⟩
  · have hsum : (twoBytes (.load .adc) (.load .adc)).number result + 0 = 0x7090 + 0x4180 + 0 :=
      hadc.1
    exact hsum
  · exact hadc.2.1.mpr (by decide)
  · have hdifference : ((twoBytes (.load .sbc) (.load .sbc)).number result : Int) =
        (0x7090 - 0x4180 - (1 - 0)) % 0x10000 := hsbc.1
    omega
  · have hdouble : (twoBytes (.modify .asl) (.modify .rol)).number result + 0 = 2 * 0x4180 := hasl
    exact hdouble
  · have hhalf : 2 * (twoBytes (.modify .lsr) (.modify .ror)).numberDown result + 1 = 0x8041 :=
      hlsr
    omega
  · have hload : (twoBytes (.load .adc) (.load .adc)).first.Runs (.load .adc) := rfl
    exact (hdecimal _ (Or.inl ⟨.adc, hload⟩) true).2
  · exact hplace _ .asl rfl (Or.inl rfl)

end Chain

end Machine

end Famicom
