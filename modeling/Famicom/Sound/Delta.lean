import Famicom.Word

/-!
# The delta channel

Of this channel only the level is produced, which a program sets directly. Playing samples from
memory is left out: their address, length and rate are kept and shown, but nothing reads them.
-/

namespace Famicom

/-- The delta channel. -/
structure Delta where
  irqEnabled : Bool := false
  looping : Bool := false
  rate : Fin 16 := low4 0
  level : Nat := 0
  sampleAddress : UInt16 := 0
  sampleLength : Nat := 0
  deriving DecidableEq, Repr

namespace Delta

/-- A write to one of the four registers. -/
def write (d : Delta) (register : Fin 4) (value : UInt8) : Delta :=
  match register with
  | 0 =>
    { d with
      irqEnabled := bit value 7
      looping := bit value 6
      rate := low4 value.toNat }
  | 1 => { d with level := value.toNat % 128 }
  | 2 => { d with sampleAddress := 0xc000 + value.toUInt16 * 64 }
  | 3 => { d with sampleLength := value.toNat * 16 + 1 }

/-- The bits of the first register that exist. -/
def flags (d : Delta) : Nat := d.irqEnabled.toNat * 128 + d.looping.toNat * 64 + d.rate

/-- The level now. -/
def output (d : Delta) : Nat := d.level

end Delta

end Famicom
