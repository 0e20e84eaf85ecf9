/-!
# Bytes and words

Bits of a byte, the two bytes of a word, counters of a few bits, and hexadecimal text.
-/

namespace Famicom

/-- Bit `i` of a byte, the lowest being bit 0. -/
def bit (b : UInt8) (i : Nat) : Bool := b.toNat.testBit i

/-- The word with the given low and high byte. -/
def wordOf (low high : UInt8) : UInt16 := UInt16.ofNat (high.toNat * 256 + low.toNat)

/-- The low byte of a word. -/
def lowByte (w : UInt16) : UInt8 := UInt8.ofNat w.toNat

/-- The high byte of a word. -/
def highByte (w : UInt16) : UInt8 := UInt8.ofNat (w.toNat / 256)

theorem toNat_wordOf (low high : UInt8) :
    (wordOf low high).toNat = high.toNat * 256 + low.toNat := by
  have hlow := low.toNat_lt
  have hhigh := high.toNat_lt
  simp only [wordOf, UInt16.toNat_ofNat']
  omega

theorem toNat_lowByte (w : UInt16) : (lowByte w).toNat = w.toNat % 256 := UInt8.toNat_ofNat'

theorem toNat_highByte (w : UInt16) : (highByte w).toNat = w.toNat / 256 := by
  have hw := w.toNat_lt
  rw [highByte, UInt8.toNat_ofNat']
  omega

@[simp] theorem lowByte_wordOf (low high : UInt8) : lowByte (wordOf low high) = low := by
  have hlow := low.toNat_lt
  have hhigh := high.toNat_lt
  apply UInt8.toNat_inj.mp
  simp only [lowByte, wordOf, UInt8.toNat_ofNat', UInt16.toNat_ofNat']
  omega

@[simp] theorem highByte_wordOf (low high : UInt8) : highByte (wordOf low high) = high := by
  have hlow := low.toNat_lt
  have hhigh := high.toNat_lt
  apply UInt8.toNat_inj.mp
  simp only [highByte, wordOf, UInt8.toNat_ofNat', UInt16.toNat_ofNat']
  omega

@[simp] theorem wordOf_lowByte_highByte (w : UInt16) : wordOf (lowByte w) (highByte w) = w := by
  have hw := w.toNat_lt
  apply UInt16.toNat_inj.mp
  simp only [lowByte, highByte, wordOf, UInt8.toNat_ofNat', UInt16.toNat_ofNat']
  omega

/-- An undriven data bus keeps the last byte put on it, the high byte of the address. -/
def openBus (addr : UInt16) : UInt8 := highByte addr

/-- A byte read as a signed number, in two's complement over the 16-bit addresses. -/
def signExtend (b : UInt8) : UInt16 :=
  if b < 128 then b.toUInt16 else b.toUInt16 - 256

/-- The two addresses lie on one page of 256 bytes. -/
def samePage (a b : UInt16) : Bool := highByte a == highByte b

/-! ## Counters of a few bits -/

/-- The lowest two bits of a number. -/
def low2 (n : Nat) : Fin 4 := Fin.ofNat 4 n

/-- The lowest three bits of a number. -/
def low3 (n : Nat) : Fin 8 := Fin.ofNat 8 n

/-- The lowest four bits of a number. -/
def low4 (n : Nat) : Fin 16 := Fin.ofNat 16 n

/-- The lowest five bits of a number. -/
def low5 (n : Nat) : Fin 32 := Fin.ofNat 32 n

/-- The lowest six bits of a number. -/
def low6 (n : Nat) : Fin 64 := Fin.ofNat 64 n

@[simp] theorem val_low2 (n : Nat) : (low2 n).val = n % 4 := rfl

@[simp] theorem val_low3 (n : Nat) : (low3 n).val = n % 8 := rfl

@[simp] theorem val_low4 (n : Nat) : (low4 n).val = n % 16 := rfl

@[simp] theorem val_low5 (n : Nat) : (low5 n).val = n % 32 := rfl

@[simp] theorem val_low6 (n : Nat) : (low6 n).val = n % 64 := rfl

/-! ## Hexadecimal text -/

/-- A digit below sixteen, in capital letters. -/
def hexDigit (n : Nat) : Char :=
  if n % 16 < 10 then Char.ofNat ('0'.toNat + n % 16) else Char.ofNat ('A'.toNat + n % 16 - 10)

/-- The lowest `width` hexadecimal digits of a number, the highest first. -/
def hexText : (width : Nat) → Nat → String
  | 0, _ => ""
  | width + 1, n => (hexText width (n / 16)).push (hexDigit n)

/-- A byte as two digits. -/
def hexByte (b : UInt8) : String := hexText 2 b.toNat

/-- A word as four digits. -/
def hexWord (w : UInt16) : String := hexText 4 w.toNat

end Famicom
