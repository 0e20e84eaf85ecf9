import Famicom.Proofs.Console.Command

/-!
# Histories of the bus

What can happen to the bus, as data: reads and writes by the processor, buttons held by a person,
the chips going on by themselves, and resets. A history is a list of these. What a place holds after
a history is often what the last step of some kind has put there, wherever in the history that was
(`lastOf`); the statements about the controllers and about memory are of this form.

The processor also accesses words, which it does byte by byte. `Bus.Traffic` is what the bus offers
it, and `Bus.exchangeAll_eq_run` takes all of it back to the accesses of bytes.
-/

namespace Famicom

/-! ## The last of a kind -/

section LastOf

variable {α β : Type} (f : α → Option β)

/-- What the last step that gives something gives. -/
def lastOf (history : List α) : Option β := history.reverse.findSome? f

theorem lastOf_concat (history : List α) (step : α) :
    lastOf f (history ++ [step]) = (f step).or (lastOf f history) := by
  rw [lastOf, List.reverse_concat, List.findSome?_cons, lastOf]
  cases f step <;> rfl

end LastOf

namespace Bus

/-! ## Steps -/

/-- What can happen to the bus. -/
inductive Step where
  | read (addr : UInt16)
  | write (addr : UInt16) (value : UInt8)
  /-- Exactly the buttons of a mask are held on a controller. -/
  | hold (i : Fin 2) (mask : UInt8)
  /-- One button of a controller is pressed or released. -/
  | press (i : Fin 2) (button : Button) (pressed : Bool)
  | takeTransfer
  | clockPicture
  | clockSound
  | reset (powerCycle : Bool)

/-- The bus after a step. -/
def act (b : Bus) : Step → Bus
  | .read addr => (b.read addr).2
  | .write addr value => b.write addr value
  | .hold i mask => (b.modifyPad? i.val fun pad ↦ pad.setButtons mask).getD b
  | .press i button pressed => (b.modifyPad? i.val fun pad ↦ pad.setButton button pressed).getD b
  | .takeTransfer => b.takeTransfer.2
  | .clockPicture => b.clockPicture.2
  | .clockSound => b.clockSound
  | .reset powerCycle => b.restarted powerCycle

/-- The bus after some steps. -/
def run (b : Bus) (steps : List Step) : Bus := steps.foldl act b

@[simp] theorem run_nil (b : Bus) : b.run [] = b := rfl

@[simp] theorem run_cons (b : Bus) (step : Step) (rest : List Step) :
    b.run (step :: rest) = (b.act step).run rest := rfl

theorem run_append (b : Bus) (steps rest : List Step) :
    b.run (steps ++ rest) = (b.run steps).run rest := List.foldl_append ..

theorem run_concat (b : Bus) (steps : List Step) (step : Step) :
    b.run (steps ++ [step]) = (b.run steps).act step := b.run_append steps [step]

/-- A controller that is there is changed. -/
theorem modifyPad?_getD (b : Bus) (i : Fin 2) (change : Pad → Pad) :
    (b.modifyPad? i.val change).getD b =
      { b with pads := b.pads.setIfInBounds i.val (change (b.pads.get i)) } := by
  rw [modifyPad?, dif_pos i.isLt, Option.getD_some]
  congr 1
  exact Vector.ext fun j hj ↦ by rw [Vector.getElem_set, Vector.getElem_setIfInBounds]; rfl

/-! ## Traffic -/

/-- What can happen to the bus, with the accesses of words. -/
inductive Traffic where
  | single (step : Step)
  | readWord (addr : UInt16)
  | readWordInPage (addr : UInt16)
  | writeWord (addr value : UInt16)

/-- The bus after some traffic. -/
def exchange (b : Bus) : Traffic → Bus
  | .single step => b.act step
  | .readWord addr => (b.readWord addr).2
  | .readWordInPage addr => (b.readWordInPage addr).2
  | .writeWord addr value => b.writeWord addr value

/-- The steps that traffic consists of. -/
def Traffic.steps : Traffic → List Step
  | .single step => [step]
  | .readWord addr => [.read addr, .read (addr + 1)]
  | .readWordInPage addr => [.read addr, .read (nextInPage addr)]
  | .writeWord addr value => [.write addr (lowByte value), .write (addr + 1) (highByte value)]

/-- The bus after some traffic, one after the other. -/
def exchangeAll (b : Bus) (traffic : List Traffic) : Bus := traffic.foldl exchange b

theorem exchange_eq_run (b : Bus) (traffic : Traffic) :
    b.exchange traffic = b.run traffic.steps := by
  cases traffic <;> rfl

/-- An access to a word is two accesses to bytes. -/
theorem exchangeAll_eq_run (b : Bus) (traffic : List Traffic) :
    b.exchangeAll traffic = b.run (traffic.flatMap Traffic.steps) := by
  induction traffic generalizing b with
  | nil => rfl
  | cons first rest ih =>
    rw [List.flatMap_cons, run_append, ← exchange_eq_run]
    exact ih (b.exchange first)

end Bus

end Famicom
