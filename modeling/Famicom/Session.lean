import Famicom.Options.Basic

/-!
# Sessions without a window

A session switches a console on as the options ask, puts the cartridge in, and runs frames as fast
as it can. Nobody hears it, so the samples of each frame are discarded. A jammed processor does
nothing more, so the session ends there.
-/

namespace Famicom

namespace Console

/-- Sets the rate at which samples are produced. -/
def setSampleRate (c : Console) (rate : Nat) : Console :=
  c.modifyBus fun b ↦ { b with apu := b.apu.setSampleRate rate }

/-- Forgets the samples waiting. -/
def clearSamples (c : Console) : Console :=
  c.modifyBus fun b ↦ { b with apu := b.apu.clearSamples }

end Console

namespace Session

/-- The console that the options ask for, with a cartridge in it if there is an image of one. -/
def start (o : Options) (image? : Option (Array UInt8)) : Except CartridgeError Console :=
  let c := ((Console.powerOn o.television).setSpeed o.speed).setSampleRate o.sampleRate
  match image? with
  | none => .ok c
  | some bytes => c.insert bytes

/-- Runs frames until the processor jams, at most `limit`, and discards their samples. -/
def run : (limit : Nat) → Console → Console
  | 0, c => c
  | limit + 1, c =>
    let c := c.finishFrame.clearSamples
    if c.cpu.isJammed then c else run limit c

/-- Where a session ended. -/
def summary (c : Console) : String :=
  s!"frames={c.frames} cycles={c.cpu.cycles} " ++
    s!"checksum={hexText 16 c.machine.bus.ppu.frame.checksum.toNat}"

/-- What there is to say about a console whose processor jammed. -/
def warning? (c : Console) : Option String :=
  if c.cpu.isJammed then some s!"processor jammed at {hexWord c.cpu.registers.pc}" else none

end Session

end Famicom
