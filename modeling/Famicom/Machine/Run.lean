import Famicom.Machine.Listing

/-!
# Running a machine by hand

Runs of the processor or of the picture chip alone, while the other stands still.
-/

namespace Famicom

namespace Bus

/-- Runs `n` dots of the picture chip and adds to `ended` those that ended a frame. -/
def clockPictureManyFrom (ended : Nat) : Nat → Bus → Nat × Bus
  | 0, b => (ended, b)
  | n + 1, b => let (done, b) := b.clockPicture; clockPictureManyFrom (ended + done.toNat) n b

/-- Runs `n` dots of the picture chip and counts those that ended a frame. -/
def clockPictureMany (b : Bus) (n : Nat) : Nat × Bus := clockPictureManyFrom 0 n b

/-- Runs dots of the picture chip until the beam is at a place, at most `limit`, and adds them to
`taken`. -/
def clockPictureToFrom (line : Int) (dot taken : Nat) : (limit : Nat) → Bus → Nat × Bus
  | 0, b => (taken, b)
  | limit + 1, b =>
    if b.ppu.beam.isAt line dot then (taken, b)
    else let (_, b) := b.clockPicture; clockPictureToFrom line dot (taken + 1) limit b

/-- The dots after which a search for a place of the beam is given up. -/
def searchLimit : Nat := 250000

/-- Runs dots of the picture chip until the beam is at a place, and counts them. -/
def clockPictureTo (b : Bus) (line : Int) (dot : Nat) : Nat × Bus :=
  clockPictureToFrom line dot 0 searchLimit b

/-- Runs dots of the picture chip until one ends a frame, at most `limit`, and adds them to
`taken`. -/
def clockPictureFrameFrom (taken : Nat) : (limit : Nat) → Bus → Nat × Bus
  | 0, b => (taken, b)
  | limit + 1, b =>
    let (done, b) := b.clockPicture
    if done then (taken + 1, b) else clockPictureFrameFrom (taken + 1) limit b

/-- Runs dots of the picture chip until one ends a frame, and counts them. No frame has more dots
than the limit. -/
def clockPictureFrame (b : Bus) : Nat × Bus :=
  clockPictureFrameFrom 0 b.ppu.beam.television.dotsPerFrame b

/-- Runs `n` cycles of the sound chip. -/
def clockSoundMany : Nat → Bus → Bus
  | 0, b => b
  | n + 1, b => clockSoundMany n b.clockSound

end Bus

namespace Machine

/-- Runs `n` processor cycles. -/
def cycleMany : Nat → Machine → Machine
  | 0, m => m
  | n + 1, m => cycleMany n m.cycle

/-- Runs processor cycles until none can have an effect, at most `limit`. -/
def runToDeath : (limit : Nat) → Machine → Machine
  | 0, m => m
  | limit + 1, m => if m.cpu.isDead then m else runToDeath limit m.cycle

/-- Runs processor cycles until the processor stops, one at least and at most `limit`. -/
def stepWithin : (limit : Nat) → Machine → Machine
  | 0, m => m
  | limit + 1, m =>
    let m := m.cycle
    if m.cpu.isStopped then m else stepWithin limit m

/-- The cycles after which an instruction is given up. -/
def stepLimit : Nat := 2000

/-- Runs to the end of an instruction and what follows it. -/
def step (m : Machine) : Machine := stepWithin stepLimit m

/-- Runs processor cycles with the trace on until the processor stops, one at least and at most
`limit`. The lines are put before `lines`. -/
def tracedStepWithin (lines : List String) : (limit : Nat) → Machine → List String × Machine
  | 0, m => (lines, m)
  | limit + 1, m =>
    let (line?, m) := m.tracedCycle
    let lines := line?.toList ++ lines
    if m.cpu.isStopped then (lines, m) else tracedStepWithin lines limit m

/-- Runs `n` instructions with the trace on. The lines are put before `lines`, the last first. -/
def tracedStepsFrom (lines : List String) : Nat → Machine → List String × Machine
  | 0, m => (lines, m)
  | n + 1, m =>
    let (lines, m) := m.tracedStepWithin lines stepLimit
    tracedStepsFrom lines n m

/-- Runs `n` instructions with the trace on, and gives its lines. -/
def tracedSteps (m : Machine) (n : Nat) : List String × Machine :=
  let (lines, m) := tracedStepsFrom [] n m
  (lines.reverse, m)

end Machine

end Famicom
