import Famicom.Console
import Famicom.Number.Decimal

/-!
# Options

What the command line can set, and the ranges that scale and speed are kept in.
-/

namespace Famicom

/-- What a run is to do. -/
structure Options where
  /-- The file of the cartridge image. Without one the slot is empty. -/
  rom : Option String := none
  pal : Bool := false
  headless : Bool := false
  /-- The size of the window as a multiple of the picture's. -/
  scale : Float32 := 2.0
  speed : Float := 1.0
  /-- Frames to run without a window. -/
  frames : Nat := 60
  sampleRate : Nat := 44100

namespace Options

/-- The standard that is asked for. -/
def television (o : Options) : Television := if o.pal then .pal else .ntsc

/-- The least scale. -/
def leastScale : Float32 := 1.0

/-- The greatest scale. -/
def greatestScale : Float32 := 5.0

/-- A scale within the range that is supported. What is not a number stays what it is. -/
def clampScale (scale : Float32) : Float32 :=
  if scale < leastScale then leastScale
  else if greatestScale < scale then greatestScale
  else scale

/-- The options with scale and speed brought into their ranges. -/
def clamped (o : Options) : Options :=
  { o with scale := clampScale o.scale, speed := Console.clampSpeed o.speed }

end Options

/-- A reason to refuse a command line, or to answer it with the help text. -/
inductive OptionError where
  | helpRequested
  | unknownArgument
  /-- An option has no value, or the file name is empty. -/
  | missingValue
  /-- A value is not of the kind its option takes. -/
  | badValue
  /-- An option is given twice. -/
  | repeated
  /-- A switch is given a value. -/
  | unexpectedValue
  deriving DecidableEq, Repr

/-- The reason in words. -/
def OptionError.message : OptionError → String
  | helpRequested => "help requested"
  | unknownArgument => "unexpected argument"
  | missingValue => "a value is required"
  | badValue => "invalid value"
  | repeated => "an argument cannot be used multiple times"
  | unexpectedValue => "unexpected value"

end Famicom
