import Famicom.Word

/-!
# The status register

Eight flags, kept apart. The processor uses six of them; the other two have no meaning inside it and
appear when the register is put on the stack, where the break mark tells a pushed copy made by an
instruction from one made by an interrupt.
-/

namespace Famicom

/-- The flags of the status register. -/
structure Status where
  carry : Bool := false
  zero : Bool := false
  interruptDisable : Bool := false
  /-- Can be set and cleared, and means nothing to this processor. -/
  decimal : Bool := false
  /-- Exists only on the stack. -/
  breakMark : Bool := false
  /-- Always set where it is seen. -/
  unused : Bool := false
  overflow : Bool := false
  negative : Bool := false
  deriving DecidableEq, Repr

namespace Status

/-- The flags of a byte. -/
def ofByte (b : UInt8) : Status where
  carry := bit b 0
  zero := bit b 1
  interruptDisable := bit b 2
  decimal := bit b 3
  breakMark := bit b 4
  unused := bit b 5
  overflow := bit b 6
  negative := bit b 7

/-- The flags as a byte. -/
def toByte (s : Status) : UInt8 :=
  UInt8.ofNat (s.carry.toNat + s.zero.toNat * 2 + s.interruptDisable.toNat * 4 +
    s.decimal.toNat * 8 + s.breakMark.toNat * 16 + s.unused.toNat * 32 + s.overflow.toNat * 64 +
    s.negative.toNat * 128)

@[simp] theorem ofByte_toByte (s : Status) : ofByte s.toByte = s := by
  obtain ⟨c, z, i, d, b, u, v, n⟩ := s
  revert c z i d b u v n
  decide +kernel

@[simp] theorem toByte_ofByte (b : UInt8) : (ofByte b).toByte = b := by
  have h : ∀ n : Fin 256, (ofByte (UInt8.ofNat n)).toByte = UInt8.ofNat n := by decide +kernel
  simpa only [UInt8.ofNat_toNat] using h ⟨b.toNat, b.toNat_lt⟩

/-- The flags at power-on. -/
def powerOn : Status := { interruptDisable := true, unused := true }

/-- The sign of a byte in two's complement. -/
def isNegative (value : UInt8) : Bool := 128 ≤ value

/-- Sets the zero and negative flags from a result. -/
def withResult (s : Status) (value : UInt8) : Status :=
  { s with zero := value == 0, negative := isNegative value }

/-- The flags as an instruction or an interrupt pushes them. -/
def pushed (s : Status) (breakMark : Bool) : UInt8 := { s with unused := true, breakMark }.toByte

/-- The flags of a byte that has been pulled from the stack. -/
def pulled (b : UInt8) : Status := { ofByte b with unused := true, breakMark := false }

end Status

end Famicom
