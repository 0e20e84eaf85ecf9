import Famicom.Proofs.Safety.Bus

/-!
# The order of the samples

A sample queue keeps two lists, so that both ends are at hand. To its owner it is one list with a
bound, and `Fifo.Step` says what a command does to that list: a push appends and drops the head if
the list has become longer than the capacity, and a request splits the list and its destination at
the same place and puts one front in the place of the other, or changes neither.

The runs of a queue are exactly the runs of such a list (`SampleQueue.follows_fifo`). Of a run of the
list it is then seen at once that

```text
moved ++ waiting  <+  pushed,
```

the samples moved to destinations, followed by those still waiting, are the pushed ones in their
order, with some left out: none comes twice, and none overtakes another.
-/

namespace Famicom

namespace SampleQueue

variable {α : Type}

/-! ## Commands -/

/-- What the owner of a queue can do with it. -/
inductive Command (α : Type) where
  | push (sample : α)
  | clear
  /-- A request for the `count` oldest samples. -/
  | read (dest : List α) (count : Nat)

/-- What the owner gets back. After a request that is the destination as it then is. -/
inductive Reply (α : Type) where
  | done
  | served (dest : List α)
  | refused (reason : SampleError) (dest : List α)

/-- The queue after a command. -/
def act (q : SampleQueue α) : Command α → SampleQueue α
  | .push sample => q.push sample
  | .clear => q.clear
  | .read dest count =>
    match q.readInto dest count with
    | .ok (_, rest) => rest
    | .error _ => q

/-- The reply to a command. -/
def reply (q : SampleQueue α) : Command α → Reply α
  | .push _ | .clear => .done
  | .read dest count =>
    match q.readInto dest count with
    | .ok (filled, _) => .served filled
    | .error reason => .refused reason dest

/-- The queue after some commands. -/
def run (q : SampleQueue α) (commands : List (Command α)) : SampleQueue α := commands.foldl act q

/-- The replies to some commands, each given to the queue that the ones before it leave. -/
def replies (q : SampleQueue α) : List (Command α) → List (Reply α)
  | [] => []
  | command :: rest => q.reply command :: (q.act command).replies rest

/-- The sample that a command pushes. -/
def Command.pushed? : Command α → Option α
  | .push sample => some sample
  | _ => none

/-- The samples that a command has moved to its destination, by the reply. -/
def Command.moved : Command α → Reply α → List α
  | .read _ count, .served dest => dest.take count
  | _, _ => []

/-- The samples that some commands push. -/
def pushed (commands : List (Command α)) : List α := commands.filterMap Command.pushed?

/-- The samples that some commands move to their destinations, by the replies. -/
def moved (commands : List (Command α)) (replies : List (Reply α)) : List α :=
  (List.zipWith Command.moved commands replies).flatten

end SampleQueue

/-! ## The bounded list -/

namespace Fifo

open SampleQueue (Command Reply pushed moved)

variable {α : Type} {capacity : Nat}

/-- What a command does to the list of the waiting samples, the oldest first, and the reply. -/
inductive Step (capacity : Nat) (waiting : List α) : Command α → Reply α → List α → Prop where
  /-- A sample goes to the end. -/
  | append {sample : α} (fits : (waiting ++ [sample]).length ≤ capacity) :
    Step capacity waiting (.push sample) .done (waiting ++ [sample])
  /-- A sample goes to the end and the head goes. -/
  | pushOut {sample head : α} {rest : List α} (long : capacity < (waiting ++ [sample]).length)
    (split : waiting ++ [sample] = head :: rest) : Step capacity waiting (.push sample) .done rest
  | clear : Step capacity waiting .clear .done []
  /-- The first `count` samples go to the first `count` places of the destination. -/
  | serve {dest oldest rest overwritten kept : List α} {count : Nat}
    (split : waiting = oldest ++ rest) (splitDest : dest = overwritten ++ kept)
    (length : oldest.length = count) (lengthDest : overwritten.length = count) :
    Step capacity waiting (.read dest count) (.served (oldest ++ kept)) rest
  | notEnough {dest : List α} {count : Nat} (few : waiting.length < count) :
    Step capacity waiting (.read dest count)
      (.refused (.notEnoughSamples count waiting.length) dest) waiting
  | tooSmall {dest : List α} {count : Nat} (enough : count ≤ waiting.length)
    (small : dest.length < count) :
    Step capacity waiting (.read dest count)
      (.refused (.destinationTooSmall count dest.length) dest) waiting

/-- What some commands do to the list, and the replies. -/
inductive Run (capacity : Nat) :
    List α → List (Command α) → List (Reply α) → List α → Prop where
  | nil (waiting : List α) : Run capacity waiting [] [] waiting
  | cons {waiting next last : List α} {command : Command α} {reply : Reply α}
    {commands : List (Command α)} {replies : List (Reply α)}
    (first : Step capacity waiting command reply next)
    (rest : Run capacity next commands replies last) :
    Run capacity waiting (command :: commands) (reply :: replies) last

/-- A step moves samples away from the front, drops some of them, or adds the one that is pushed. -/
theorem Step.moved_sublist {waiting next : List α} {command : Command α} {reply : Reply α}
    (h : Step capacity waiting command reply next) :
    (command.moved reply ++ next).Sublist (waiting ++ command.pushed?.toList) := by
  cases h with
  | append => exact List.Sublist.refl _
  | pushOut long split =>
    change List.Sublist _ (waiting ++ [_])
    rw [split]
    exact List.sublist_cons_self _ _
  | clear => exact List.nil_sublist _
  | serve split splitDest length lengthDest =>
    subst split length
    rw [Command.moved, List.take_left]
    exact List.sublist_append_left _ _
  | notEnough | tooSmall => exact List.sublist_append_left _ _

theorem Run.moved_sublist {waiting last : List α} {commands : List (Command α)}
    {replies : List (Reply α)} (h : Run capacity waiting commands replies last) :
    (moved commands replies ++ last).Sublist (waiting ++ pushed commands) := by
  induction h with
  | nil waiting => exact List.sublist_append_left _ _
  | @cons waiting next last command reply commands replies first rest ih =>
    have hpushed : pushed (command :: commands) = command.pushed?.toList ++ pushed commands := by
      rw [pushed, List.filterMap_cons]
      cases command.pushed? <;> rfl
    have hmoved : moved (command :: commands) (reply :: replies) =
        command.moved reply ++ moved commands replies := by
      rw [moved, List.zipWith_cons_cons, List.flatten_cons, moved]
    rw [hpushed, hmoved, List.append_assoc, ← List.append_assoc waiting]
    refine .trans (ih.append_left (command.moved reply)) ?_
    rw [← List.append_assoc]
    exact first.moved_sublist.append_right _

theorem Step.length_le {waiting next : List α} {command : Command α} {reply : Reply α}
    (h : Step capacity waiting command reply next) (hfits : waiting.length ≤ capacity) :
    next.length ≤ capacity := by
  cases h with
  | append fits => exact fits
  | pushOut long split =>
    have hlength := congrArg List.length split
    rw [List.length_append, List.length_singleton, List.length_cons] at hlength
    omega
  | clear => exact Nat.zero_le _
  | serve split =>
    have hlength := congrArg List.length split
    rw [List.length_append] at hlength
    omega
  | notEnough | tooSmall => exact hfits

/-- The list never holds more than its capacity. -/
theorem Run.length_le {waiting last : List α} {commands : List (Command α)}
    {replies : List (Reply α)} (h : Run capacity waiting commands replies last)
    (hfits : waiting.length ≤ capacity) : last.length ≤ capacity := by
  induction h with
  | nil => exact hfits
  | cons first _ ih => exact ih (first.length_le hfits)

end Fifo

/-! ## The queue follows the list -/

namespace SampleQueue

variable {α : Type} {q : SampleQueue α}

theorem readInto_of_few {count : Nat} (few : q.available < count) (dest : List α) :
    q.readInto dest count = .error (.notEnoughSamples count q.available) := if_pos few

theorem readInto_of_small {dest : List α} {count : Nat} (enough : count ≤ q.available)
    (small : dest.length < count) :
    q.readInto dest count = .error (.destinationTooSmall count dest.length) := by
  rw [readInto, if_neg (Nat.not_lt.mpr enough), if_pos small]

theorem readInto_of_enough {dest : List α} {count : Nat} (enough : count ≤ q.available)
    (large : count ≤ dest.length) :
    q.readInto dest count = .ok (q.toList.take count ++ dest.drop count, q.removeOldest count) := by
  rw [readInto, if_neg (Nat.not_lt.mpr enough), if_neg (Nat.not_lt.mpr large)]

theorem length_toList_concat (q : SampleQueue α) (sample : α) :
    (q.toList ++ [sample]).length = q.size + 1 := by
  rw [List.length_append, length_toList, List.length_singleton]

/-- With a positive capacity, a full queue has an old sample to drop. -/
theorem exists_oldest (hpos : 0 < q.capacity) (full : q.capacity ≤ q.size) :
    ∃ oldest rest, q.toList = oldest :: rest :=
  List.exists_cons_of_length_pos (by rw [length_toList]; omega)

/-- A request finds too few samples, or too few places, or is granted. -/
theorem readInto_cases (q : SampleQueue α) (dest : List α) (count : Nat) :
    (q.available < count ∧
      q.readInto dest count = .error (.notEnoughSamples count q.available)) ∨
    (count ≤ q.available ∧ dest.length < count ∧
      q.readInto dest count = .error (.destinationTooSmall count dest.length)) ∨
    (count ≤ q.available ∧ count ≤ dest.length ∧
      q.readInto dest count =
        .ok (q.toList.take count ++ dest.drop count, q.removeOldest count)) := by
  rcases Nat.lt_or_ge q.available count with few | enough
  · exact .inl ⟨few, readInto_of_few few dest⟩
  · rcases Nat.lt_or_ge dest.length count with small | large
    · exact .inr (.inl ⟨enough, small, readInto_of_small enough small⟩)
    · exact .inr (.inr ⟨enough, large, readInto_of_enough enough large⟩)

/-- A request is granted when there are samples and places enough. -/
theorem isOk_readInto (q : SampleQueue α) (dest : List α) (count : Nat) :
    (q.readInto dest count).isOk = true ↔ count ≤ q.available ∧ count ≤ dest.length := by
  rcases q.readInto_cases dest count with ⟨few, h⟩ | ⟨-, small, h⟩ | ⟨enough, large, h⟩
  · rw [h]
    exact iff_of_false Bool.false_ne_true fun granted ↦ Nat.not_le.mpr few granted.1
  · rw [h]
    exact iff_of_false Bool.false_ne_true fun granted ↦ Nat.not_le.mpr small granted.2
  · rw [h]
    exact iff_of_true rfl ⟨enough, large⟩

@[simp] theorem capacity_act (q : SampleQueue α) (command : Command α) :
    (q.act command).capacity = q.capacity := by
  cases command with
  | push sample => exact q.capacity_push sample
  | clear => rfl
  | read dest count =>
    rw [act]
    rcases q.readInto_cases dest count with ⟨-, h⟩ | ⟨-, -, h⟩ | ⟨-, -, h⟩
    · rw [h]
    · rw [h]
    · rw [h]
      rfl

/-- The list of a queue takes the step that the queue takes. -/
theorem step_act (hpos : 0 < q.capacity) (command : Command α) :
    Fifo.Step q.capacity q.toList command (q.reply command) (q.act command).toList := by
  cases command with
  | push sample =>
    have hlength := q.length_toList_concat sample
    rw [act, toList_push, reply]
    by_cases full : q.capacity ≤ q.size
    · rw [if_pos full]
      -- what goes is an old sample, not the one just pushed
      obtain ⟨oldest, rest, hlist⟩ := exists_oldest hpos full
      rw [hlist] at hlength ⊢
      exact .pushOut (by omega) List.cons_append
    · rw [if_neg full]
      exact .append (by omega)
  | clear => exact .clear
  | read dest count =>
    rw [act, reply]
    rcases q.readInto_cases dest count with ⟨few, h⟩ | ⟨enough, small, h⟩ | ⟨enough, large, h⟩
    · rw [h]
      rw [available, ← length_toList] at few ⊢
      exact .notEnough few
    · rw [h]
      rw [available, ← length_toList] at enough
      exact .tooSmall enough small
    · rw [h]
      rw [available, ← length_toList] at enough
      simp only [toList_removeOldest]
      exact .serve (List.take_append_drop count _).symm (List.take_append_drop count dest).symm
        (List.length_take_of_le enough) (List.length_take_of_le large)

/-- There is no other step. -/
theorem eq_of_step {command : Command α} {reply : Reply α} {next : List α} (hpos : 0 < q.capacity)
    (h : Fifo.Step q.capacity q.toList command reply next) :
    reply = q.reply command ∧ next = (q.act command).toList := by
  cases h with
  | @append sample fits =>
    rw [length_toList_concat] at fits
    rw [act, toList_push, if_neg (by omega)]
    exact ⟨rfl, rfl⟩
  | @pushOut sample head rest long split =>
    rw [length_toList_concat] at long
    have full : q.capacity ≤ q.size := by omega
    obtain ⟨oldest, others, hlist⟩ := exists_oldest hpos full
    rw [act, toList_push, if_pos full]
    rw [hlist] at split ⊢
    exact ⟨rfl, (List.cons.inj split).2.symm⟩
  | clear => exact ⟨rfl, rfl⟩
  | @serve dest oldest rest overwritten kept count split splitDest length lengthDest =>
    subst splitDest length
    have enough : oldest.length ≤ q.available := by
      rw [available, ← length_toList, split, List.length_append]
      exact Nat.le_add_right _ _
    have large : oldest.length ≤ (overwritten ++ kept).length := by
      rw [List.length_append, lengthDest]
      exact Nat.le_add_right _ _
    rw [act, SampleQueue.reply, readInto_of_enough enough large]
    simp only [toList_removeOldest]
    rw [split, List.take_left, List.drop_left, ← lengthDest, List.drop_left]
    exact ⟨rfl, rfl⟩
  | notEnough few =>
    rw [length_toList] at few ⊢
    rw [act, SampleQueue.reply, readInto_of_few few]
    exact ⟨rfl, rfl⟩
  | tooSmall enough small =>
    rw [length_toList] at enough
    rw [act, SampleQueue.reply, readInto_of_small enough small]
    exact ⟨rfl, rfl⟩

/-- The runs of the list of a queue are the runs of the queue. -/
theorem run_iff (hpos : 0 < q.capacity) (commands : List (Command α)) (replies : List (Reply α))
    (last : List α) :
    Fifo.Run q.capacity q.toList commands replies last ↔
      replies = q.replies commands ∧ last = (q.run commands).toList := by
  induction commands generalizing q replies with
  | nil =>
    constructor
    · rintro ⟨⟩
      exact ⟨rfl, rfl⟩
    · rintro ⟨rfl, rfl⟩
      exact .nil _
  | cons command commands ih =>
    have hnext := q.capacity_act command
    have hrest (replies : List (Reply α)) :
        Fifo.Run q.capacity (q.act command).toList commands replies last ↔
          replies = (q.act command).replies commands ∧
            last = ((q.act command).run commands).toList := by
      rw [← hnext]
      exact ih (hnext ▸ hpos) replies
    constructor
    · rintro (_ | ⟨first, rest⟩)
      obtain ⟨rfl, rfl⟩ := eq_of_step hpos first
      obtain ⟨rfl, hlast⟩ := (hrest _).mp rest
      exact ⟨rfl, hlast⟩
    · rintro ⟨rfl, hlast⟩
      exact .cons (step_act hpos command) ((hrest _).mpr ⟨rfl, hlast⟩)

/-- A sample queue is a bounded list, first in and first out. For every capacity, a capacity of zero
counting as one, and all commands, the queue has the one run that the list has: the same replies and
the same samples waiting, never more than the capacity. A request is granted exactly if there are
samples and places enough. Over the whole run the samples moved, followed by those waiting, are
among the samples pushed, each of them once at most and in the order in which they were pushed. -/
theorem follows_fifo (capacity : Nat) (commands : List (Command α)) :
    (∀ replies last, Fifo.Run (max 1 capacity) [] commands replies last ↔
        replies = (ofCapacity capacity).replies commands ∧
          last = ((ofCapacity capacity).run commands).toList) ∧
      ((ofCapacity capacity).run commands).toList.length ≤ max 1 capacity ∧
      (∀ dest count, (((ofCapacity capacity).run commands).readInto dest count).isOk = true ↔
        count ≤ ((ofCapacity capacity).run commands).toList.length ∧ count ≤ dest.length) ∧
      (moved commands ((ofCapacity capacity).replies commands) ++
        ((ofCapacity capacity).run commands).toList).Sublist (pushed commands) := by
  have hpos : 0 < (ofCapacity capacity : SampleQueue α).capacity := Nat.le_max_left 1 capacity
  have hrun := run_iff hpos commands
  have hown := (hrun _ _).mpr ⟨rfl, rfl⟩
  refine ⟨hrun, hown.length_le (Nat.zero_le _), fun dest count ↦ ?_, hown.moved_sublist⟩
  rw [isOk_readInto, available, length_toList]

end SampleQueue

end Famicom
