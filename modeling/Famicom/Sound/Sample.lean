/-!
# Samples

A sample is a binary32 number, kept by its bit pattern. Once mixed, samples are only moved, and a
move keeps every bit, also of a pattern that is not a number.
-/

namespace Famicom

/-- A sample, by its bit pattern. -/
structure Sample where
  bits : UInt32
  deriving DecidableEq, Repr

/-- The sample of a level. -/
def Sample.ofFloat32 (level : Float32) : Sample := ⟨level.toBits⟩

end Famicom
