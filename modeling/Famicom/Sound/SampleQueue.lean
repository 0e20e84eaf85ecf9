/-!
# Sample queues

A queue between the sound chip and whoever plays its samples. It holds a bounded number of them: a
sample that does not fit pushes the oldest one out, so a slow player loses old sound and never
stops the chip.

The queue is two lists, the oldest samples first in `front` and the newest first in `back`, so that
both ends are at hand. `toList` is the one list they stand for, oldest first.
-/

namespace Famicom

/-- A reason to refuse a request for samples. -/
inductive SampleError where
  | notEnoughSamples (requested available : Nat)
  | destinationTooSmall (requested capacity : Nat)
  deriving DecidableEq, Repr

namespace SampleError

/-- The reason in words. -/
def message : SampleError → String
  | notEnoughSamples requested available =>
    s!"requested {requested} samples but only {available} are buffered"
  | destinationTooSmall requested capacity =>
    s!"destination holds {capacity} samples, {requested} requested"

/-- The reason as the program reports it. -/
def report (e : SampleError) : String := "audio: " ++ e.message

end SampleError

/-- A bounded queue. -/
structure SampleQueue (α : Type) where
  capacity : Nat
  front : List α := []
  back : List α := []
  size : Nat := 0
  size_eq : size = front.length + back.length := by rfl

namespace SampleQueue

variable {α : Type}

/-- The capacity of a queue that is not told otherwise. -/
def defaultCapacity : Nat := 8192

/-- An empty queue. It can hold one sample at least. -/
def ofCapacity (capacity : Nat) : SampleQueue α where
  capacity := max 1 capacity

/-- The samples, oldest first. -/
def toList (q : SampleQueue α) : List α := q.front ++ q.back.reverse

@[simp] theorem length_toList (q : SampleQueue α) : q.toList.length = q.size := by
  rw [toList, List.length_append, List.length_reverse, q.size_eq]

@[simp] theorem toList_ofCapacity (capacity : Nat) :
    (ofCapacity capacity : SampleQueue α).toList = [] := rfl

/-- Adds a sample, without regard to the capacity. -/
def enqueue (q : SampleQueue α) (sample : α) : SampleQueue α :=
  match q with
  | ⟨capacity, front, back, size, h⟩ =>
    ⟨capacity, front, sample :: back, size + 1, by simp [h, Nat.add_assoc]⟩

@[simp] theorem toList_enqueue (q : SampleQueue α) (sample : α) :
    (q.enqueue sample).toList = q.toList ++ [sample] := by
  simp only [enqueue, toList, List.reverse_cons, List.append_assoc]

/-- Removes the oldest sample, if there is one. -/
def dropOldest (q : SampleQueue α) : SampleQueue α :=
  match q with
  | ⟨capacity, _ :: front, back, size, h⟩ =>
    ⟨capacity, front, back, size - 1, by simp only [h, List.length_cons]; omega⟩
  | ⟨capacity, [], back, size, h⟩ =>
    ⟨capacity, back.reverse.tail, [], size - 1, by simp [h]⟩

@[simp] theorem toList_dropOldest (q : SampleQueue α) : q.dropOldest.toList = q.toList.tail := by
  obtain ⟨capacity, front, back, size, h⟩ := q
  cases front with
  | nil => simp only [dropOldest, toList, List.reverse_nil, List.append_nil, List.nil_append]
  | cons oldest front => rfl

/-- Adds a sample; where it does not fit, the oldest one goes. -/
def push (q : SampleQueue α) (sample : α) : SampleQueue α :=
  if q.capacity ≤ q.size then q.dropOldest.enqueue sample else q.enqueue sample

theorem toList_push (q : SampleQueue α) (sample : α) :
    (q.push sample).toList =
      (if q.capacity ≤ q.size then q.toList.tail else q.toList) ++ [sample] := by
  unfold push
  split
  · rw [toList_enqueue, toList_dropOldest]
  · rw [toList_enqueue]

/-- Adds samples one after the other. -/
def pushAll (q : SampleQueue α) (samples : List α) : SampleQueue α := samples.foldl push q

/-- The samples waiting. -/
def available (q : SampleQueue α) : Nat := q.size

/-- Forgets all samples. -/
def clear (q : SampleQueue α) : SampleQueue α := { capacity := q.capacity }

@[simp] theorem toList_clear (q : SampleQueue α) : q.clear.toList = [] := rfl

/-- Removes the `count` oldest samples. -/
def removeOldest (q : SampleQueue α) (count : Nat) : SampleQueue α where
  capacity := q.capacity
  front := q.toList.drop count
  size := q.size - count
  size_eq := by rw [List.length_drop, length_toList, List.length_nil, Nat.add_zero]

@[simp] theorem toList_removeOldest (q : SampleQueue α) (count : Nat) :
    (q.removeOldest count).toList = q.toList.drop count :=
  List.append_nil _

/-- Moves the `count` oldest samples to the front of `dest`, or refuses and changes nothing. -/
def readInto (q : SampleQueue α) (dest : List α) (count : Nat) :
    Except SampleError (List α × SampleQueue α) :=
  if q.available < count then .error (.notEnoughSamples count q.available)
  else if dest.length < count then .error (.destinationTooSmall count dest.length)
  else .ok (q.toList.take count ++ dest.drop count, q.removeOldest count)

end SampleQueue

end Famicom
