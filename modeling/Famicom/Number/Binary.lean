/-!
# Binary floating point, exactly

The interchange formats of binary floating point as integers: a format is its number of fraction
bits and of exponent bits, a finite value is `significand · 2 ^ exponent`, and rounding goes to the
nearest representable value, a tie to the even one. Everything is integer arithmetic, so the
result is the correctly rounded one for every input.

The encoding of a rounded value needs no case distinction. Counting quanta from the smallest
subnormal, a significand `m` at step `k` of the exponent range is encoded by `k · 2^fraction + m`,
subnormals (`k = 0`, `m` small) and the carry of a significand that rounds up to the next power of
two included.
-/

namespace Famicom.Number

/-- `n / d` rounded to the nearest integer, a tie to the even one. -/
def divNearestEven (n d : Nat) : Nat :=
  let q := n / d
  let r := n % d
  if 2 * r < d then q
  else if d < 2 * r then q + 1
  else if q % 2 = 0 then q else q + 1

/-- A binary interchange format. -/
structure BinaryFormat where
  /-- Bits of the stored fraction. -/
  fraction : Nat
  /-- Bits of the biased exponent. -/
  exponent : Nat
  deriving DecidableEq, Repr

namespace BinaryFormat

/-- Four bytes. -/
def binary32 : BinaryFormat := ⟨23, 8⟩

/-- Eight bytes. -/
def binary64 : BinaryFormat := ⟨52, 11⟩

/-- The bias of the stored exponent. -/
def bias (f : BinaryFormat) : Nat := 1 <<< (f.exponent - 1) - 1

/-- The exponent of the smallest subnormal, negated. -/
def quantum (f : BinaryFormat) : Nat := f.bias + f.fraction - 1

/-- The greatest stored exponent, that of all that is not finite. -/
def topExponent (f : BinaryFormat) : Nat := 1 <<< f.exponent - 1

/-- The bits of positive infinity. -/
def infinity (f : BinaryFormat) : Nat := f.topExponent <<< f.fraction

/-- The bits of the quiet value that is not a number. -/
def notANumber (f : BinaryFormat) : Nat := f.infinity + 1 <<< (f.fraction - 1)

/-- The bits of the sign. -/
def signBit (f : BinaryFormat) : Nat := 1 <<< (f.fraction + f.exponent)

/-- The bits of the value nearest to `n / d`, a tie to the even one. -/
def encode (f : BinaryFormat) (n d : Nat) : Nat :=
  if n = 0 then 0
  else
    -- In quanta the value is `n · 2^quantum / d`; `step` doublings bring it below `2^(fraction+1)`.
    let scaled := n <<< f.quantum
    let whole := scaled / d
    let step := whole.log2 - f.fraction
    min f.infinity (step <<< f.fraction + divNearestEven scaled (d <<< step))

/-- The magnitude of a finite value in quanta, from its bits; nothing for an infinity and for what
is not a number. The sign is ignored. -/
def quanta? (f : BinaryFormat) (bits : Nat) : Option Nat :=
  let stored := bits >>> f.fraction % (f.topExponent + 1)
  let fraction := bits % 1 <<< f.fraction
  if stored = f.topExponent then none
  else if stored = 0 then some fraction
  else some ((1 <<< f.fraction + fraction) <<< (stored - 1))

/-- Whether the sign bit is set. -/
def isNegative (f : BinaryFormat) (bits : Nat) : Bool := bits / f.signBit % 2 = 1

end BinaryFormat

end Famicom.Number
