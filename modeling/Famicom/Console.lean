import Famicom.Machine.Run

/-!
# The console

The machine with its clock: one dot of the picture chip at a time, followed by the processor cycles
that are due with it, each of which the sound chip shares. The cartridge goes in and out of its slot
under a power cycle, and an image that is refused leaves everything as it was.
-/

namespace Famicom

/-- A console. -/
structure Console where
  television : Television
  machine : Machine
  clock : RatioClock
  /-- Speed as a multiple of real time. It does not change what the console does. -/
  speed : Float := 1.0

namespace Console

/-- The beam of the picture chip. -/
def beam (c : Console) : Beam := c.machine.bus.ppu.beam

/-- The frames completed since the last reset. -/
def frames (c : Console) : Nat := c.beam.frames

/-- The processor. -/
def cpu (c : Console) : Cpu := c.machine.cpu

/-- Something has gone wrong that makes what the console does void. -/
def faulted (c : Console) : Bool := c.clock.fault || c.machine.bus.faulted

/-- Changes what is on the bus. -/
def modifyBus (c : Console) (change : Bus → Bus) : Console :=
  match c with
  | ⟨television, ⟨cpu, bus⟩, clock, speed⟩ => ⟨television, ⟨cpu, change bus⟩, clock, speed⟩

/-! ## Reset and cartridges -/

/-- Resets every chip. Only a power cycle clears the memory and the registers. -/
def reset (c : Console) (powerCycle : Bool) : Console :=
  match c with
  | ⟨television, ⟨cpu, bus⟩, clock, speed⟩ =>
    let bus := bus.resetMemory powerCycle
    let bus := { bus with ppu := bus.ppu.reset, apu := bus.apu.reset }
    ⟨television, (Machine.mk cpu bus).resetCpu powerCycle, clock.reset, speed⟩

/-- A console that has just been switched on, with nothing in its slot. -/
def powerOn (tv : Television) : Console :=
  reset ⟨tv, .powerOn tv .empty, { ratio := tv.cyclesPerDot }, 1.0⟩ true

/-- Puts something else into the slot, under a power cycle. -/
def replaceSlot (c : Console) (slot : Slot) : Console :=
  (c.modifyBus fun b ↦ { b with slot }).reset true

/-- Inserts the cartridge with this image. -/
def insert (c : Console) (bytes : Array UInt8) : Except CartridgeError Console :=
  (Slot.ofBytes bytes).map c.replaceSlot

/-- Takes the cartridge out. -/
def eject (c : Console) : Console := c.replaceSlot .empty

/-- What is in the slot, for a person. -/
def description (c : Console) : Description := c.machine.bus.slot.description

/-! ## Running -/

/-- Runs `n` cycles of processor and sound chip. -/
def runCycles : Nat → Machine → Machine
  | 0, m => m
  | n + 1, m =>
    match m.cycle with
    | ⟨cpu, bus⟩ => runCycles n ⟨cpu, bus.clockSound⟩

/-- One dot of the picture chip and the cycles due with it, telling whether the dot ended a
frame. -/
def stepDot (c : Console) : Bool × Console :=
  match c with
  | ⟨television, ⟨cpu, bus⟩, clock, speed⟩ =>
    let (done, bus) := bus.clockPicture
    let (due, clock) := clock.tick
    (done, ⟨television, runCycles due ⟨cpu, bus⟩, clock, speed⟩)

/-- Runs `n` dots and adds to `ended` those that ended a frame. -/
def stepDotsFrom (ended : Nat) : Nat → Console → Nat × Console
  | 0, c => (ended, c)
  | n + 1, c => let (done, c) := c.stepDot; stepDotsFrom (ended + done.toNat) n c

/-- Runs `n` dots and counts those that ended a frame. -/
def stepDots (c : Console) (n : Nat) : Nat × Console := stepDotsFrom 0 n c

/-- Runs dots until one ends a frame, at most `limit`. -/
def finishFrameWithin : (limit : Nat) → Console → Console
  | 0, c => c
  | limit + 1, c => let (done, c) := c.stepDot; if done then c else finishFrameWithin limit c

/-- Runs to the end of the frame. No frame has more dots than the limit. -/
def finishFrame (c : Console) : Console := finishFrameWithin c.television.dotsPerFrame c

/-- Runs `n` frames. -/
def finishFrames : Nat → Console → Console
  | 0, c => c
  | n + 1, c => finishFrames n c.finishFrame

/-- Runs `n` frames and lists how many were completed after each. -/
def countFrames : Nat → Console → List Nat × Console
  | 0, c => ([], c)
  | n + 1, c =>
    let c := c.finishFrame
    let (counts, last) := countFrames n c
    (c.frames :: counts, last)

/-! ## Running by instructions -/

/-- The processor is between two instructions and cycles have passed since there were `cycles`. -/
def hasStepped (c : Console) (cycles : Nat) : Bool := c.cpu.cycles != cycles && c.cpu.isStopped

/-- Runs dots until the processor stops after the count of cycles was `cycles`, at most `limit`, and
adds them to `taken`. -/
def stepWithin (cycles taken : Nat) : (limit : Nat) → Console → Nat × Console
  | 0, c => (taken, c)
  | limit + 1, c =>
    let (_, c) := c.stepDot
    if c.hasStepped cycles then (taken + 1, c) else stepWithin cycles (taken + 1) limit c

/-- The dots after which an instruction is given up. -/
def stepLimit : Nat := 20000

/-- Runs to the end of an instruction and what follows it, and counts the dots. -/
def step (c : Console) : Nat × Console := stepWithin c.cpu.cycles 0 stepLimit c

/-- The processor is about to fetch an opcode from `pc`. -/
def isAbout (c : Console) (pc : UInt16) : Bool := c.cpu.atBoundary && c.cpu.registers.pc == pc

/-- Runs dots until the processor is about to fetch an opcode from `pc`, at most `limit`, and adds
them to `taken`. -/
def runToFrom (pc : UInt16) (taken : Nat) : (limit : Nat) → Console → Nat × Console
  | 0, c => (taken, c)
  | limit + 1, c =>
    if c.isAbout pc then (taken, c)
    else let (_, c) := c.stepDot; runToFrom pc (taken + 1) limit c

/-- Runs dots until the processor is about to fetch an opcode from `pc`, at most `limit`, and counts
them. -/
def runTo (c : Console) (pc : UInt16) (limit : Nat) : Nat × Console := runToFrom pc 0 limit c

/-! ## The trace -/

/-- Runs `n` cycles of processor and sound chip with the trace on. The lines are put before
`lines`. -/
def runTracedCycles (lines : List String) : Nat → Machine → List String × Machine
  | 0, m => (lines, m)
  | n + 1, m =>
    match m.tracedCycle with
    | (line?, ⟨cpu, bus⟩) =>
      runTracedCycles (line?.toList ++ lines) n ⟨cpu, bus.clockSound⟩

/-- One dot with the trace on. The lines are put before `lines`. -/
def tracedDot (c : Console) (lines : List String) : List String × Console :=
  match c with
  | ⟨television, ⟨cpu, bus⟩, clock, speed⟩ =>
    let (_, bus) := bus.clockPicture
    let (due, clock) := clock.tick
    let (lines, machine) := runTracedCycles lines due ⟨cpu, bus⟩
    (lines, ⟨television, machine, clock, speed⟩)

/-- Runs dots with the trace on, as a step without it does. The lines are put before `lines`. -/
def tracedStepWithin (cycles : Nat) (lines : List String) :
    (limit : Nat) → Console → List String × Console
  | 0, c => (lines, c)
  | limit + 1, c =>
    let (lines, c) := c.tracedDot lines
    if c.hasStepped cycles then (lines, c) else tracedStepWithin cycles lines limit c

/-- Runs `n` instructions with the trace on. The lines are put before `lines`, the last first. -/
def tracedStepsFrom (lines : List String) : Nat → Console → List String × Console
  | 0, c => (lines, c)
  | n + 1, c =>
    let (lines, c) := tracedStepWithin c.cpu.cycles lines stepLimit c
    tracedStepsFrom lines n c

/-- Runs `n` instructions with the trace on, and gives its lines. -/
def tracedSteps (c : Console) (n : Nat) : List String × Console :=
  let (lines, c) := tracedStepsFrom [] n c
  (lines.reverse, c)

/-! ## Speed -/

/-- The least speed. -/
def leastSpeed : Float := 0.001

/-- The greatest speed. -/
def greatestSpeed : Float := 100.0

/-- A speed within the range that is supported. What is not a number stays what it is. -/
def clampSpeed (speed : Float) : Float :=
  if speed < leastSpeed then leastSpeed
  else if greatestSpeed < speed then greatestSpeed
  else speed

/-- Sets the speed. What is not a number means real time. -/
def setSpeed (c : Console) (speed : Float) : Console :=
  { c with speed := if speed.isNaN then 1.0 else clampSpeed speed }

end Console

end Famicom
