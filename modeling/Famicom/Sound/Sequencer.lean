import Famicom.Television
import Famicom.Word

/-!
# The frame sequencer

The sequencer divides time into quarter and half frames for the envelopes and counters of the
channels. It counts processor cycles and compares the count with the next of six steps; steps 1, 2,
3 and 5 are quarter frames, 2 and 5 are half frames too, and after step 6 the count starts again. In
the mode of four steps the last three raise an interrupt unless that is inhibited.

The comparison is an equality. It is right because the count never passes the next step: it starts
below the first, grows by one, and the next step changes exactly when it is reached.
-/

namespace Famicom

/-- The two modes of the sequencer. -/
inductive SequencerMode where
  | fourStep
  | fiveStep
  deriving DecidableEq, Repr

/-- The mode's name. -/
def SequencerMode.name : SequencerMode → String
  | fourStep => "FourStep"
  | fiveStep => "FiveStep"

/-- The cycle counts of the six steps. -/
def Television.sequencerSteps : Television → SequencerMode → Vector Nat 6
  | ntsc, .fourStep => #v[7457, 14913, 22371, 29828, 29829, 29830]
  | ntsc, .fiveStep => #v[7457, 14913, 22371, 29829, 37281, 37282]
  | pal, .fourStep => #v[8313, 16627, 24939, 33252, 33253, 33254]
  | pal, .fiveStep => #v[8313, 16627, 24939, 33253, 41565, 41566]

/-- What a cycle asks the channels to do. -/
structure FrameEvent where
  /-- Clock the envelopes and the linear counter. -/
  quarter : Bool
  /-- Clock the length counters and the sweeps. -/
  half : Bool
  deriving DecidableEq, Repr

namespace FrameEvent

/-- Nothing is asked for. -/
def none : FrameEvent := ⟨false, false⟩

/-- A quarter frame that is no half frame. -/
def quarterOnly : FrameEvent := ⟨true, false⟩

/-- A half frame, which is always a quarter frame too. -/
def both : FrameEvent := ⟨true, true⟩

/-- Nothing is asked for. -/
def isNone (e : FrameEvent) : Bool := !e.quarter && !e.half

/-- What a step asks for, the first being number 0. -/
def ofStep (step : Fin 6) : FrameEvent :=
  match step with
  | 0 | 2 => quarterOnly
  | 1 | 4 => both
  | 3 | 5 => none

end FrameEvent

/-- The step that is reached first. -/
def firstStep : Fin 6 := 0

/-- The step after a step; the first one follows the last. -/
def stepAfter (step : Fin 6) : Fin 6 := step + 1

/-- The frame sequencer. -/
structure Sequencer where
  television : Television
  mode : SequencerMode := .fourStep
  irqInhibited : Bool := false
  irqFlag : Bool := false
  cycle : Nat := 0
  /-- The step that is reached next, the first being number 0. -/
  next : Fin 6 := firstStep
  deriving DecidableEq, Repr

namespace Sequencer

/-- The sequencer at power-on. -/
def reset (s : Sequencer) : Sequencer := { television := s.television }

/-- The cycle count of the next step. -/
def threshold (s : Sequencer) : Nat := (s.television.sequencerSteps s.mode)[s.next]

/-- A write to its register, which starts the count again. Choosing five steps asks for a half
frame at once. -/
def write (s : Sequencer) (value : UInt8) : FrameEvent × Sequencer :=
  let five := bit value 7
  let inhibited := bit value 6
  (if five then .both else .none,
    { s with
      mode := if five then .fiveStep else .fourStep
      irqInhibited := inhibited
      irqFlag := s.irqFlag && !inhibited
      cycle := 0
      next := firstStep })

/-- Reaching this step raises the interrupt flag. -/
def raisesIrq (s : Sequencer) : Bool :=
  s.mode == .fourStep && 3 ≤ s.next.val && !s.irqInhibited

/-- A processor cycle. -/
def clock (s : Sequencer) : FrameEvent × Sequencer :=
  let cycle := s.cycle + 1
  if cycle ≠ s.threshold then (.none, { s with cycle })
  else
    (.ofStep s.next,
      { s with
        irqFlag := s.irqFlag || s.raisesIrq
        cycle := if s.next.val = 5 then 0 else cycle
        next := stepAfter s.next })

/-- Acknowledges the interrupt. -/
def clearIrq (s : Sequencer) : Sequencer := { s with irqFlag := false }

/-- Clocks `n` times and lists, after the reverse of `found`, the cycles that ask for something,
the first one being number `i`. -/
def clockManyFrom (found : List (Nat × FrameEvent)) (i : Nat) :
    Nat → Sequencer → List (Nat × FrameEvent) × Sequencer
  | 0, s => (found.reverse, s)
  | n + 1, s =>
    let (event, s) := s.clock
    clockManyFrom (if event.isNone then found else (i, event) :: found) (i + 1) n s

/-- Clocks `n` times and lists the cycles, counted from one, that ask for something. -/
def clockMany (s : Sequencer) (n : Nat) : List (Nat × FrameEvent) × Sequencer :=
  clockManyFrom [] 1 n s

end Sequencer

end Famicom
