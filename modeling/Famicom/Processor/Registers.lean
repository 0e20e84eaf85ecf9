import Famicom.Processor.Operation
import Famicom.Processor.Status

/-!
# Registers and arithmetic

What the operations do to registers and bytes, without any bus. Addition is the one piece of
arithmetic that all others come down to: subtraction adds the complement, and a comparison is a
subtraction that keeps only the flags.
-/

namespace Famicom

/-- The registers of the processor. -/
structure Registers where
  a : UInt8 := 0
  x : UInt8 := 0
  y : UInt8 := 0
  sp : UInt8 := 0xfd
  pc : UInt16 := 0
  p : Status := .powerOn
  deriving DecidableEq, Repr

namespace Registers

/-- Sets the zero and negative flags from a result. -/
def flagged (r : Registers) (value : UInt8) : Registers := { r with p := r.p.withResult value }

/-- Puts a result into the accumulator and sets the flags from it. -/
def setA (r : Registers) (value : UInt8) : Registers := { r with a := value }.flagged value

/-- Puts a result into X and sets the flags from it. -/
def setX (r : Registers) (value : UInt8) : Registers := { r with x := value }.flagged value

/-- Puts a result into Y and sets the flags from it. -/
def setY (r : Registers) (value : UInt8) : Registers := { r with y := value }.flagged value

/-- Puts a result into the accumulator and X and sets the flags from it. -/
def setAX (r : Registers) (value : UInt8) : Registers :=
  { r with a := value, x := value }.flagged value

/-- The carry flag as a number. -/
def carryIn (r : Registers) : Nat := r.p.carry.toNat

/-! ## Arithmetic -/

/-- Adds a byte and the carry to the accumulator. The signed sum overflows when the operands have
one sign and the result has the other. -/
def addWithCarry (r : Registers) (value : UInt8) : Registers :=
  let sum := r.a.toNat + value.toNat + r.carryIn
  let result := UInt8.ofNat sum
  let overflow :=
    Status.isNegative r.a == Status.isNegative value &&
      Status.isNegative result != Status.isNegative r.a
  { r with p := { r.p with carry := 255 < sum, overflow } }.setA result

/-- Subtracts a byte and the borrow, the absence of a carry, from the accumulator. -/
def subtractWithBorrow (r : Registers) (value : UInt8) : Registers := r.addWithCarry (~~~value)

/-- Compares a register with a byte. -/
def compare (r : Registers) (register value : UInt8) : Registers :=
  { r with p := { r.p with carry := value ≤ register }.withResult (register - value) }

/-- The constant that the two unstable instructions mix into the accumulator. -/
def unstableConstant : UInt8 := 0xee

/-- The effect of an instruction on the operand it has read. -/
def load (r : Registers) (op : LoadOp) (value : UInt8) : Registers :=
  match op with
  | .lda => r.setA value
  | .ldx => r.setX value
  | .ldy => r.setY value
  | .lax => r.setAX value
  | .adc => r.addWithCarry value
  | .sbc => r.subtractWithBorrow value
  | .and => r.setA (r.a &&& value)
  | .ora => r.setA (r.a ||| value)
  | .eor => r.setA (r.a ^^^ value)
  | .cmp => r.compare r.a value
  | .cpx => r.compare r.x value
  | .cpy => r.compare r.y value
  | .bit =>
    { r with
      p := { r.p with
        zero := r.a &&& value == 0
        overflow := Famicom.bit value 6
        negative := Famicom.bit value 7 } }
  | .anc =>
    let r := r.setA (r.a &&& value)
    { r with p := { r.p with carry := r.p.negative } }
  | .alr =>
    let masked := r.a &&& value
    { r with p := { r.p with carry := Famicom.bit masked 0 } }.setA (masked >>> 1)
  | .arr =>
    let rotated := UInt8.ofNat ((r.a &&& value).toNat / 2 + r.carryIn * 128)
    let r := r.setA rotated
    { r with
      p := { r.p with
        carry := Famicom.bit rotated 6
        overflow := Famicom.bit rotated 6 != Famicom.bit rotated 5 } }
  | .axs =>
    let masked := r.a &&& r.x
    { r.compare masked value with x := masked - value }
  | .xaa => r.setA ((r.a ||| unstableConstant) &&& r.x &&& value)
  | .lxa => r.setAX ((r.a ||| unstableConstant) &&& value)
  | .las =>
    let masked := value &&& r.sp
    { r with sp := masked }.setAX masked

/-! ## Changing a byte in place -/

/-- Shifts a byte left, `carryIn` entering at the lower end and the carry flag taking what leaves
at the upper end. -/
def shiftLeft (r : Registers) (value : UInt8) (carryIn : Nat) : UInt8 × Registers :=
  let result := UInt8.ofNat (value.toNat * 2 + carryIn)
  (result, { r with p := { r.p with carry := bit value 7 }.withResult result })

/-- Shifts a byte right, `carryIn` entering at the upper end and the carry flag taking what leaves
at the lower end. -/
def shiftRight (r : Registers) (value : UInt8) (carryIn : Nat) : UInt8 × Registers :=
  let result := UInt8.ofNat (value.toNat / 2 + carryIn * 128)
  (result, { r with p := { r.p with carry := bit value 0 }.withResult result })

/-- The byte an instruction writes back, and its effect on the registers. -/
def modify (r : Registers) (op : ModifyOp) (value : UInt8) : UInt8 × Registers :=
  match op with
  | .asl => r.shiftLeft value 0
  | .lsr => r.shiftRight value 0
  | .rol => r.shiftLeft value r.carryIn
  | .ror => r.shiftRight value r.carryIn
  | .inc => (value + 1, r.flagged (value + 1))
  | .dec => (value - 1, r.flagged (value - 1))
  | .slo => let (result, r) := r.shiftLeft value 0; (result, r.setA (r.a ||| result))
  | .rla => let (result, r) := r.shiftLeft value r.carryIn; (result, r.setA (r.a &&& result))
  | .sre => let (result, r) := r.shiftRight value 0; (result, r.setA (r.a ^^^ result))
  | .rra => let (result, r) := r.shiftRight value r.carryIn; (result, r.addWithCarry result)
  | .dcp => (value - 1, r.compare r.a (value - 1))
  | .isc => (value + 1, r.subtractWithBorrow (value + 1))

/-! ## The rest -/

/-- The byte that an instruction stores. -/
def stored (r : Registers) : StoreOp → UInt8
  | .sta => r.a
  | .stx => r.x
  | .sty => r.y
  | .sax => r.a &&& r.x

/-- The byte that an instruction stores after combining it with the high byte of the address. -/
def storedHigh (r : Registers) : StoreHighOp → UInt8
  | .sha | .tas => r.a &&& r.x
  | .shx => r.x
  | .shy => r.y

/-- One of these instructions also puts what it stores into the stack pointer. -/
def afterStoreHigh (r : Registers) : StoreHighOp → Registers
  | .tas => { r with sp := r.a &&& r.x }
  | _ => r

/-- The effect of an instruction on registers alone. -/
def transfer (r : Registers) : RegisterOp → Registers
  | .tax => r.setX r.a
  | .tay => r.setY r.a
  | .txa => r.setA r.x
  | .tya => r.setA r.y
  | .tsx => r.setX r.sp
  | .txs => { r with sp := r.x }
  | .inx => r.setX (r.x + 1)
  | .iny => r.setY (r.y + 1)
  | .dex => r.setX (r.x - 1)
  | .dey => r.setY (r.y - 1)
  | .clc => { r with p := { r.p with carry := false } }
  | .sec => { r with p := { r.p with carry := true } }
  | .cli => { r with p := { r.p with interruptDisable := false } }
  | .sei => { r with p := { r.p with interruptDisable := true } }
  | .cld => { r with p := { r.p with decimal := false } }
  | .sed => { r with p := { r.p with decimal := true } }
  | .clv => { r with p := { r.p with overflow := false } }

end Registers

/-- Whether a branch is taken. -/
def BranchOp.isTaken (op : BranchOp) (p : Status) : Bool :=
  match op with
  | bcc => !p.carry
  | bcs => p.carry
  | bne => !p.zero
  | beq => p.zero
  | bpl => !p.negative
  | bmi => p.negative
  | bvc => !p.overflow
  | bvs => p.overflow

end Famicom
