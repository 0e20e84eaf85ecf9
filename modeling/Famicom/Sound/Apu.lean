import Famicom.Sound.Delta
import Famicom.Sound.Mixer
import Famicom.Sound.Noise
import Famicom.Sound.Pulse
import Famicom.Sound.Sample
import Famicom.Sound.SamplePacer
import Famicom.Sound.SampleQueue
import Famicom.Sound.Sequencer
import Famicom.Sound.Triangle

/-!
# The sound chip

Five channels, the sequencer that clocks their envelopes and counters, and the queue of mixed
samples. The chip runs one processor cycle at a time. Its interrupt is the flag of the sequencer;
what that does to the processor's interrupt line is decided where the two meet.
-/

namespace Famicom

/-- The sound chip. -/
structure Apu where
  television : Television
  sequencer : Sequencer
  pulse1 : Pulse := { unit := .one }
  pulse2 : Pulse := { unit := .two }
  triangle : Triangle := {}
  noise : Noise
  delta : Delta := {}
  pacer : SamplePacer := {}
  samples : SampleQueue Sample := .ofCapacity SampleQueue.defaultCapacity

namespace Apu

/-- The chip at power-on. -/
def powerOn (tv : Television) : Apu where
  television := tv
  sequencer := { television := tv }
  noise := { television := tv }

/-- Back to the state at power-on, except for the sample rate. No samples are left. -/
def reset (a : Apu) : Apu :=
  { powerOn a.television with pacer := a.pacer.restart, samples := a.samples.clear }

/-- The levels of the channels. -/
def levels (a : Apu) : ChannelLevels :=
  ⟨a.pulse1.output, a.pulse2.output, a.triangle.output, a.noise.output, a.delta.output⟩

/-- The mixed level now. -/
def output (a : Apu) : Float32 := a.levels.mix

/-- The interrupt flag of the sequencer. -/
def irqFlag (a : Apu) : Bool := a.sequencer.irqFlag

/-- Sets the rate at which samples are produced. -/
def setSampleRate (a : Apu) (rate : Nat) : Apu := { a with pacer := a.pacer.setRate rate }

/-- Forgets the samples waiting. -/
def clearSamples (a : Apu) : Apu := { a with samples := a.samples.clear }

/-- A quarter frame. -/
def clockQuarter (a : Apu) : Apu :=
  { a with
    pulse1 := a.pulse1.clockEnvelope
    pulse2 := a.pulse2.clockEnvelope
    triangle := a.triangle.clockLinear
    noise := a.noise.clockEnvelope }

/-- A half frame: the length counters, and then the sweeps. -/
def clockHalf (a : Apu) : Apu :=
  { a with
    pulse1 := a.pulse1.clockLength.clockSweep
    pulse2 := a.pulse2.clockLength.clockSweep
    triangle := a.triangle.clockLength
    noise := a.noise.clockLength }

/-- Does what the sequencer asks for. -/
def apply (a : Apu) (event : FrameEvent) : Apu :=
  let a := if event.quarter then a.clockQuarter else a
  if event.half then a.clockHalf else a

/-- Moves the sequencer on and does what it asks for. -/
def clockSequencer (a : Apu) : Apu :=
  let (event, sequencer) := a.sequencer.clock
  { a with sequencer }.apply event

/-- Moves the timers of the channels on. -/
def clockTimers (a : Apu) : Apu :=
  { a with
    pulse1 := a.pulse1.clockTimer
    pulse2 := a.pulse2.clockTimer
    triangle := a.triangle.clockTimer
    noise := a.noise.clockTimer }

/-- Takes a sample if one is due. -/
def sample (a : Apu) : Apu :=
  let (due, pacer) := a.pacer.clock a.television.cpuFrequency
  let a := { a with pacer }
  if due then
    let sample := Sample.ofFloat32 a.output
    { a with samples := a.samples.push sample }
  else a

/-- A processor cycle. -/
def clock (a : Apu) : Apu := a.clockSequencer.clockTimers.sample

/-- A processor write to one of the chip's addresses; others are ignored. -/
def write (a : Apu) (addr : UInt16) (value : UInt8) : Apu :=
  let offset := addr.toNat - 0x4000
  let register := low2 offset
  if addr < 0x4000 then a
  else if offset < 0x04 then { a with pulse1 := a.pulse1.write register value }
  else if offset < 0x08 then { a with pulse2 := a.pulse2.write register value }
  else if offset < 0x0c then { a with triangle := a.triangle.write register value }
  else if offset < 0x10 then { a with noise := a.noise.write register value }
  else if offset < 0x14 then { a with delta := a.delta.write register value }
  else if offset = 0x15 then
    { a with
      pulse1 := a.pulse1.setEnabled (bit value 0)
      pulse2 := a.pulse2.setEnabled (bit value 1)
      triangle := a.triangle.setEnabled (bit value 2)
      noise := a.noise.setEnabled (bit value 3) }
  else if offset = 0x17 then
    let (event, sequencer) := a.sequencer.write value
    { a with sequencer }.apply event
  else a

/-- The byte of the status register: which channels may sound, and the interrupt flag. -/
def statusByte (a : Apu) : UInt8 :=
  UInt8.ofNat (a.pulse1.length.isActive.toNat + a.pulse2.length.isActive.toNat * 2 +
    a.triangle.length.isActive.toNat * 4 + a.noise.length.isActive.toNat * 8 +
    a.irqFlag.toNat * 64)

/-- A read of the status register, which acknowledges the interrupt. -/
def readStatus (a : Apu) : UInt8 × Apu :=
  let value := a.statusByte
  (value, { a with sequencer := a.sequencer.clearIrq })

/-- Moves the `count` oldest samples to the front of `dest`. -/
def readSamples (a : Apu) (dest : List Sample) (count : Nat) :
    Except SampleError (List Sample × Apu) :=
  (a.samples.readInto dest count).map fun (dest, samples) ↦ (dest, { a with samples })

end Apu

end Famicom
