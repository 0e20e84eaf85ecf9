import Famicom.Proofs.Machine.Arithmetic
import Famicom.Proofs.Machine.Instruction

/-!
# Where an operand is

An operand is found by counting. The bytes after the opcode are a number, which may be the place of
a pointer to another number, and an index is added to what has been found; each step wraps at its
own border. With `n` for the operand bytes, `[…]` for the word read through a pointer, and `x`, `y`
for the index registers,

```text
n              n, n + x or n + y        mod 256, in page zero
nn             nn, nn + x or nn + y     mod 65536
(nn)           [nn, nn + 1]             the second byte from the page of the first
(n,X)          [n + x, n + x + 1]       both mod 256
(n),Y          [n, n + 1] + y           the pointer mod 256, the sum mod 65536
a branch       next + n                 n signed, mod 65536.
```

`Mode.resolution` is this table in natural numbers, with the reads it takes in their order. The
processor calculates with bytes and words, and finds the same (`Machine.decode_resolution`). A page
is crossed if the low byte of the base and the index make a carry, and by a branch if its target is
on another page than the instruction that follows it.

Four instructions store a byte masked by the high byte of the base plus one. The base is not kept:
it has to be told from the address and the crossing (`Resolution.Describes.combineHigh`), where the
carry has already added the one.
-/

namespace Famicom

/-! ## The table -/

/-- The number at some addresses, the lowest byte first, and the bus after reading it. -/
def Bus.readNumber (b : Bus) (addrs : List Nat) : Nat × Bus :=
  let read := b.readAll (addrs.map UInt16.ofNat)
  (littleEndian read.1, read.2)

/-- What the operand of an instruction comes to. -/
structure Resolution where
  /-- The number that has been read, before an index or an offset is added. -/
  base : Nat
  address : Nat
  crosses : Bool
  bus : Bus

namespace Resolution

/-- The number is the address. -/
def plain (found : Nat × Bus) : Resolution := ⟨found.1, found.1, false, found.2⟩

/-- An index is added in page zero. -/
def inPageZero (found : Nat × Bus) (index : UInt8) : Resolution :=
  ⟨found.1, (found.1 + index.toNat) % 256, false, found.2⟩

/-- An index is added to an address. -/
def indexed (found : Nat × Bus) (index : UInt8) : Resolution :=
  ⟨found.1, (found.1 + index.toNat) % 65536, decide (256 ≤ found.1 % 256 + index.toNat), found.2⟩

/-- A signed offset is added to the address of the next instruction. -/
def branch (found : Nat × Bus) (next : Nat) : Resolution :=
  let target := ((next + signedValue 1 found.1) % 65536).toNat
  ⟨found.1, target, next / 256 != target / 256, found.2⟩

end Resolution

/-- What the operand of an instruction comes to, if its bytes start at `pc`. -/
def Mode.resolution (mode : Mode) (b : Bus) (r : Registers) (pc : Nat) : Resolution :=
  let byte := b.readNumber [pc]
  let word := b.readNumber [pc, (pc + 1) % 65536]
  match mode with
  | implicit | accumulator => .plain (0, b)
  | immediate => .plain (pc, b)
  | zeroPage => .plain byte
  | zeroPageX => .inPageZero byte r.x
  | zeroPageY => .inPageZero byte r.y
  | relative => .branch byte ((pc + 1) % 65536)
  | absolute => .plain word
  | absoluteX => .indexed word r.x
  | absoluteY => .indexed word r.y
  | indirect =>
    .plain (word.2.readNumber [word.1, word.1 / 256 * 256 + (word.1 + 1) % 256])
  | indirectX =>
    .plain (byte.2.readNumber
      [(byte.1 + r.x.toNat) % 256, (byte.1 + r.x.toNat + 1) % 256])
  | indirectY => .indexed (byte.2.readNumber [byte.1, (byte.1 + 1) % 256]) r.y

/-- The index carries into the high byte of the address. -/
def Mode.isIndexed : Mode → Bool
  | absoluteX | absoluteY | indirectY => true
  | _ => false

/-- The opcodes that store a masked byte have an indexed address. -/
theorem Opcode.isIndexed_of_storeHigh {opcode : UInt8} {op : StoreHighOp}
    (h : operation opcode = .storeHigh op) : (Mode.ofOpcode opcode).isIndexed = true := by
  have hall : ∀ n : Fin 256,
      operations[low4 (n.val / 16)][low4 n.val] ∈
        [.storeHigh .sha, .storeHigh .shx, .storeHigh .shy, .storeHigh .tas] →
      (OpcodeFields.mk (low2 n.val) (low3 (n.val / 4)) (low3 (n.val / 32))).addressing.isIndexed =
        true := by decide +kernel
  refine hall ⟨opcode.toNat, opcode.toNat_lt⟩ ?_
  change operation opcode ∈ _
  rw [h]
  cases op <;> decide

/-! ## Numbers read from the bus -/

theorem toNat_add_one (w : UInt16) : (w + 1).toNat = (w.toNat + 1) % 65536 := UInt16.toNat_add w 1

namespace Bus

variable (b : Bus)

theorem readNumber_byte (addr : UInt16) :
    b.readNumber [addr.toNat] = ((b.read addr).1.toNat, (b.read addr).2) := by
  have hbyte : b.readAll [addr] = ([(b.read addr).1], (b.read addr).2) := rfl
  rw [readNumber, List.map_singleton, UInt16.ofNat_toNat, hbyte, littleEndian_singleton]

theorem readNumber_word (first second : UInt16) :
    b.readNumber [first.toNat, second.toNat] =
      ((wordOf (b.read first).1 ((b.read first).2.read second).1).toNat,
        ((b.read first).2.read second).2) := by
  have hbytes : b.readAll [first, second] =
      ([(b.read first).1, ((b.read first).2.read second).1], ((b.read first).2.read second).2) :=
    rfl
  rw [readNumber, List.map_cons, List.map_singleton, UInt16.ofNat_toNat, UInt16.ofNat_toNat, hbytes,
    littleEndian_cons, littleEndian_singleton, toNat_wordOf, Nat.add_comm, Nat.mul_comm]

theorem toNat_nextInPage (addr : UInt16) :
    (nextInPage addr).toNat = addr.toNat / 256 * 256 + (addr.toNat + 1) % 256 := by
  have hlow : (lowByte addr + 1).toNat = (addr.toNat % 256 + 1) % 256 := by
    rw [UInt8.toNat_add, toNat_lowByte]
    rfl
  rw [nextInPage, toNat_wordOf, hlow, toNat_highByte]
  exact congrArg (_ + ·) (Nat.mod_add_mod _ _ _)

/-- The two bytes of a pointer are on one page. -/
theorem readNumber_inPage (pointer : UInt16) :
    b.readNumber [pointer.toNat, pointer.toNat / 256 * 256 + (pointer.toNat + 1) % 256] =
      ((b.readWordInPage pointer).1.toNat, (b.readWordInPage pointer).2) := by
  rw [← toNat_nextInPage, readNumber_word]
  rfl

/-- In page zero the page of a pointer need not be named. -/
theorem readNumber_inPageZero (pointer : UInt8) :
    b.readNumber [pointer.toNat, (pointer.toNat + 1) % 256] =
      ((b.readWordInPage pointer.toUInt16).1.toNat, (b.readWordInPage pointer.toUInt16).2) := by
  have hpointer := pointer.toNat_lt
  have hword : pointer.toUInt16.toNat = pointer.toNat := UInt8.toNat_toUInt16 pointer
  have hpage : pointer.toNat / 256 * 256 + (pointer.toNat + 1) % 256 =
      (pointer.toNat + 1) % 256 := by omega
  rw [← b.readNumber_inPage, hword, hpage]

end Bus

namespace Machine

variable (m : Machine)

theorem readNumber_fetch :
    m.bus.readNumber [m.registers.pc.toNat] = (m.fetch.1.toNat, m.fetch.2.bus) :=
  m.bus.readNumber_byte m.registers.pc

theorem readNumber_fetchWord :
    m.bus.readNumber [m.registers.pc.toNat, (m.registers.pc.toNat + 1) % 65536] =
      (m.fetchWord.1.toNat, m.fetchWord.2.bus) := by
  rw [← toNat_add_one, Bus.readNumber_word]
  rfl

end Machine

/-! ## Bytes and words against the table -/

/-- The processor has found what the table says. -/
structure Resolution.Describes (res : Resolution) (o : Operand) (b : Bus) : Prop where
  address : o.address.toNat = res.address
  crosses : o.pageCrossed = res.crosses
  bus : b = res.bus

theorem not_samePage (a b : UInt16) : (!samePage a b) = (a.toNat / 256 != b.toNat / 256) := by
  rw [samePage, Bool.eq_iff_iff, Bool.not_eq_true', beq_eq_false_iff_ne, bne_iff_ne, ne_eq, ne_eq,
    ← UInt8.toNat_inj, toNat_highByte, toNat_highByte]

/-- Sign extension adds a number in two's complement. -/
theorem toNat_add_signExtend (next : UInt16) (offset : UInt8) :
    (next + signExtend offset).toNat =
      ((next.toNat + signedValue 1 offset.toNat) % 65536).toNat := by
  have hoffset := offset.toNat_lt
  have hword : offset.toUInt16.toNat = offset.toNat := UInt8.toNat_toUInt16 offset
  rw [UInt16.toNat_add, signExtend, signedValue, Nat.pow_one]
  by_cases hpositive : offset < 128
  · have hlt : offset.toNat < 128 := hpositive
    rw [if_pos hpositive, if_pos (by omega), hword]
    omega
  · have hle : 128 ≤ offset.toNat := Nat.le_of_not_lt hpositive
    have hnegative : (offset.toUInt16 - 256).toNat = (65536 - 256 + offset.toNat) % 65536 := by
      rw [UInt16.toNat_sub, hword]
      rfl
    rw [if_neg hpositive, if_neg (by omega), hnegative]
    omega

namespace Resolution.Describes

variable {b : Bus}

theorem plain {address : UInt16} {base : Nat} (h : address.toNat = base) :
    (Resolution.plain (base, b)).Describes ⟨address, false⟩ b := ⟨h, rfl, rfl⟩

theorem inPageZero (offset index : UInt8) :
    (Resolution.inPageZero (offset.toNat, b) index).Describes (.inPageZero (offset + index)) b := by
  refine ⟨?_, rfl, rfl⟩
  exact (UInt8.toNat_toUInt16 _).trans (UInt8.toNat_add offset index)

theorem indexed (base : UInt16) (index : UInt8) :
    (Resolution.indexed (base.toNat, b) index).Describes (.indexed base index) b := by
  have hbase := base.toNat_lt
  have hindex := index.toNat_lt
  have haddress : (base + index.toUInt16).toNat = (base.toNat + index.toNat) % 65536 := by
    rw [UInt16.toNat_add, UInt8.toNat_toUInt16]
  refine ⟨haddress, ?_, rfl⟩
  change (!samePage base (base + index.toUInt16)) = decide (256 ≤ base.toNat % 256 + index.toNat)
  rw [not_samePage, haddress, Bool.eq_iff_iff, bne_iff_ne, decide_eq_true_iff]
  omega

theorem branch (next : UInt16) (offset : UInt8) :
    (Resolution.branch (offset.toNat, b) next.toNat).Describes (.branch next offset) b := by
  refine ⟨toNat_add_signExtend next offset, ?_, rfl⟩
  change (!samePage next (next + signExtend offset)) = _
  rw [not_samePage, toNat_add_signExtend]
  rfl

end Resolution.Describes

/-! ## Stores that mask with the high byte -/

namespace Resolution

/-- The byte that is left of one to be stored. -/
def masked (res : Resolution) (value : UInt8) : UInt8 :=
  value &&& UInt8.ofNat ((res.base / 256 + 1) % 256)

/-- Where it goes: to the address, unless a page has been crossed. Then it is the high byte. -/
def target (res : Resolution) (value : UInt8) : Nat :=
  if res.crosses then (res.masked value).toNat * 256 + res.address % 256 else res.address

end Resolution

/-- The one that a carry has added to the high byte is the one that the mask adds. -/
theorem Resolution.Describes.combineHigh {base : UInt16} {index : UInt8} {b c : Bus}
    {i : Instruction}
    (h : (Resolution.indexed (base.toNat, b) index).Describes ⟨i.address, i.pageCrossed⟩ c)
    (value : UInt8) :
    let res := Resolution.indexed (base.toNat, b) index
    Machine.combineHigh i value = (UInt16.ofNat (res.target value), res.masked value) := by
  intro res
  have hbase := base.toNat_lt
  have hindex := index.toNat_lt
  have haddress : i.address.toNat = (base.toNat + index.toNat) % 65536 := h.address
  have hcrosses : i.pageCrossed = res.crosses := h.crosses
  have hnext : (UInt8.ofNat ((res.base / 256 + 1) % 256)).toNat = (base.toNat / 256 + 1) % 256 := by
    rw [UInt8.toNat_ofNat']
    exact Nat.mod_mod _ _
  rw [Machine.combineHigh, target, hcrosses]
  cases hcarry : res.crosses with
  | true =>
    have hle : 256 ≤ base.toNat % 256 + index.toNat := of_decide_eq_true hcarry
    have hhigh : highByte i.address = UInt8.ofNat ((res.base / 256 + 1) % 256) := by
      rw [← UInt8.toNat_inj, hnext, toNat_highByte]
      omega
    have hlow : (lowByte i.address).toNat = res.address % 256 := by
      rw [toNat_lowByte, h.address]
    simp only [if_true, hhigh]
    rw [wordOf, hlow]
    rfl
  | false =>
    have hlt : ¬256 ≤ base.toNat % 256 + index.toNat := of_decide_eq_false hcarry
    have hhigh : highByte i.address + 1 = UInt8.ofNat ((res.base / 256 + 1) % 256) := by
      have hone : (1 : UInt8).toNat = 1 := rfl
      rw [← UInt8.toNat_inj, hnext, UInt8.toNat_add, toNat_highByte, hone]
      omega
    have haddr : UInt16.ofNat res.address = i.address := by
      rw [← h.address, UInt16.ofNat_toNat]
    simp only [Bool.false_eq_true, if_false, hhigh, haddr]
    rfl

/-! ## The instruction at the program counter -/

namespace Machine

variable (m : Machine)

/-- Operands are found as the table says. -/
theorem describes_resolve (mode : Mode) :
    (mode.resolution m.bus m.registers m.registers.pc.toNat).Describes (m.resolve mode).1
      (m.resolve mode).2.bus := by
  unfold Mode.resolution
  rw [m.readNumber_fetch, m.readNumber_fetchWord]
  cases mode with
  | implicit | accumulator | immediate | absolute => exact .plain rfl
  | zeroPage => exact .plain (UInt8.toNat_toUInt16 _)
  | zeroPageX | zeroPageY => exact .inPageZero _ _
  | relative =>
    rw [← toNat_add_one]
    exact .branch (m.registers.pc + 1) m.fetch.1
  | absoluteX | absoluteY => exact .indexed _ _
  | indirect =>
    dsimp only
    rw [m.fetchWord.2.bus.readNumber_inPage]
    exact .plain rfl
  | indirectX =>
    have hpointer : (m.fetch.1.toNat + m.registers.x.toNat) % 256 =
        (m.fetch.1 + m.registers.x).toNat := (UInt8.toNat_add _ _).symm
    have hsecond : (m.fetch.1.toNat + m.registers.x.toNat + 1) % 256 =
        ((m.fetch.1 + m.registers.x).toNat + 1) % 256 := by
      rw [← hpointer, Nat.mod_add_mod]
    dsimp only
    rw [hpointer, hsecond, m.fetch.2.bus.readNumber_inPageZero]
    exact .plain rfl
  | indirectY =>
    dsimp only
    rw [m.fetch.2.bus.readNumber_inPageZero]
    exact .indexed _ _

theorem exists_indexed {mode : Mode} (h : mode.isIndexed = true) :
    ∃ (base : UInt16) (index : UInt8) (b : Bus),
      mode.resolution m.bus m.registers m.registers.pc.toNat =
        .indexed (base.toNat, b) index := by
  unfold Mode.resolution
  rw [m.readNumber_fetch, m.readNumber_fetchWord]
  cases mode with
  | absoluteX | absoluteY => exact ⟨_, _, _, rfl⟩
  | indirectY =>
    dsimp only
    rw [m.fetch.2.bus.readNumber_inPageZero]
    exact ⟨_, _, _, rfl⟩
  | _ => exact absurd h Bool.false_ne_true

/-- A store of a masked byte is one write, after which only the stack pointer may differ. -/
theorem execute_storeHigh {i : Instruction} {op : StoreHighOp}
    (h : i.operation = .storeHigh op) :
    m.execute i =
      (m.modifyRegisters (·.afterStoreHigh op)).write
        (combineHigh i (m.registers.storedHigh op)).1
        (combineHigh i (m.registers.storedHigh op)).2 := by
  rw [execute, h]

/-- What decoding an instruction leaves. The program counter is past the operand bytes and no other
register has changed, the bus has been read as the table says, and so are the address and whether a
page has been crossed. If the instruction stores a masked byte, then it writes once: the byte is
masked with the high byte of the base plus one, and if a page has been crossed it is also the high
byte of the address. -/
theorem decode_resolution (m : Machine) :
    let d := m.decode
    let mode := d.instruction.mode
    let pc := m.registers.pc.toNat
    let opcode := m.bus.read m.registers.pc
    let res := mode.resolution opcode.2 m.registers ((pc + 1) % 65536)
    d.opcode = opcode.1 ∧ mode = .ofOpcode d.opcode ∧
      d.machine.registers =
        { m.registers with pc := m.registers.pc + UInt16.ofNat (1 + mode.operandLength) } ∧
      d.machine.bus = res.bus ∧
      d.instruction.address.toNat = res.address ∧
      d.instruction.pageCrossed = res.crosses ∧
      ∀ op, d.instruction.operation = .storeHigh op → ∀ k : Machine,
        k.execute d.instruction =
          (k.modifyRegisters (·.afterStoreHigh op)).write
            (UInt16.ofNat (res.target (k.registers.storedHigh op)))
            (res.masked (k.registers.storedHigh op)) := by
  intro d mode pc opcode res
  have hres : res = mode.resolution m.fetch.2.bus m.fetch.2.registers
      m.fetch.2.registers.pc.toNat := by
    change mode.resolution opcode.2 m.registers ((pc + 1) % 65536) = _
    rw [← toNat_add_one]
    rfl
  have hfound : res.Describes ⟨d.instruction.address, d.instruction.pageCrossed⟩ d.machine.bus := by
    rw [hres]
    exact m.fetch.2.describes_resolve mode
  refine ⟨rfl, rfl, ?_, hfound.bus, hfound.address, hfound.crosses, ?_⟩
  · rw [m.registers_decode, UInt16.ofNat_add, ← UInt16.add_assoc]
    rfl
  · intro op hop k
    obtain ⟨base, index, b, hindexed⟩ :=
      m.fetch.2.exists_indexed (Opcode.isIndexed_of_storeHigh hop)
    have hres : res = .indexed (base.toNat, b) index := hres.trans hindexed
    rw [hres] at hfound ⊢
    rw [k.execute_storeHigh hop, hfound.combineHigh]

/-- `SHX $12F0,Y` at the start of memory, with 1 in X and `$20` in Y. -/
def storingX : Machine :=
  (((ofOpcode 0x9e).write 1 0xf0).write 2 0x12).modifyRegisters fun r ↦ { r with x := 1, y := 0x20 }

/-- Indexing leaves page `$12`. The mask is `$13`, of which X has the lowest bit, and the byte goes
to page 1. -/
theorem decode_resolution_storingX :
    storingX.decode.instruction.operation = .storeHigh .shx ∧
      storingX.decode.instruction.address = 0x1310 ∧
      storingX.decode.machine.execute storingX.decode.instruction =
        storingX.decode.machine.write 0x0110 1 := by
  have hop : storingX.decode.instruction.operation = .storeHigh .shx := rfl
  obtain ⟨-, -, -, -, haddress, -, hstore⟩ := decode_resolution storingX
  refine ⟨hop, UInt16.toNat_inj.mp haddress, ?_⟩
  exact hstore .shx hop storingX.decode.machine

end Machine

end Famicom
