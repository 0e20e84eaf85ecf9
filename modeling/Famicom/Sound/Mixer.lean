/-!
# The mixer

The five levels are added in two groups by a circuit that is not linear. The formulas are the usual
approximation of it, evaluated in binary32 in the order in which they are written.
-/

namespace Famicom

/-- The levels of the five channels. -/
structure ChannelLevels where
  pulse1 : Nat
  pulse2 : Nat
  triangle : Nat
  noise : Nat
  delta : Nat
  deriving DecidableEq, Repr

namespace ChannelLevels

/-- The pulse channels together. -/
def pulseOutput (l : ChannelLevels) : Float32 :=
  let sum := Float32.ofNat l.pulse1 + Float32.ofNat l.pulse2
  if sum == 0.0 then 0.0 else 95.88 / (8128.0 / sum + 100.0)

/-- The other three channels together. -/
def otherOutput (l : ChannelLevels) : Float32 :=
  let sum := Float32.ofNat l.triangle / 8227.0 + Float32.ofNat l.noise / 12241.0 +
    Float32.ofNat l.delta / 22638.0
  if sum == 0.0 then 0.0 else 159.79 / (1.0 / sum + 100.0)

/-- The mixed level, between zero and one. -/
def mix (l : ChannelLevels) : Float32 := l.pulseOutput + l.otherOutput

end ChannelLevels

end Famicom
