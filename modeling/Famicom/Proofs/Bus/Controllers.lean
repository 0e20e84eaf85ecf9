import Famicom.Proofs.Bus.History
import Famicom.Proofs.Machine.Tracing

/-!
# The controllers on the bus

Both controllers are read bit by bit, each through a port of its own, and share one strobe line,
which is bit 0 of what is written to `$4016`. A program raises the strobe and lets it fall, and then
reads a port eight times,

```text
hold m,  write $4016 1,  write $4016 0,  read,  read, …   ↦   $40 + m₀,  $40 + m₁, …
```

Anything may come between, other accesses and the work of the chips, reads of the other port, and a
person who presses and releases buttons. What counts is said here in terms of the history alone
(`Bus.controllers_serial`): the last level of the strobe (`Bus.strobeAfter`), the buttons held at
some moment (`Bus.maskAfter`), and the number of reads of the port since the strobe fell.

## What carries the proofs

A step of the bus does one of four things to a controller (`Bus.Step.onPad_cases`). While the strobe
is high, each of them leaves a fresh copy of the buttons (`Pad.IsCopying`), and so the strobe falls
on the buttons held at that moment. While it is low, only the reads of the port change what is read
next (`Pad.Shifts`).
-/

namespace Famicom

/-! ## One controller -/

namespace Pad

/-- While the strobe is high the copy is that of the buttons held, and none of it has been read. -/
def IsCopying (p : Pad) : Prop := p.strobe = true → p.copied = p.held ∧ p.reads = 0

/-- The strobe is low, the copy is this mask, and so many reads have been made of it. -/
structure Shifts (p : Pad) (mask : UInt8) (count : Nat) : Prop where
  strobe : p.strobe = false
  copied : p.copied = mask
  reads : p.reads = min count 8

variable {p : Pad} {mask : UInt8} {count : Nat}

@[simp] theorem strobe_follow : p.follow.strobe = p.strobe := by
  unfold follow
  split <;> rfl

@[simp] theorem held_follow : p.follow.held = p.held := by
  unfold follow
  split <;> rfl

@[simp] theorem strobe_read : p.read.2.strobe = p.strobe := by
  unfold read
  split
  · rfl
  · split <;> rfl

@[simp] theorem held_read : p.read.2.held = p.held := by
  unfold read
  split
  · rfl
  · split <;> rfl

theorem follow_of_low (h : p.strobe = false) : p.follow = p := by
  rw [follow, if_neg (Bool.eq_false_iff.mp h)]

theorem isCopying_follow : p.follow.IsCopying := by
  unfold follow
  split
  · exact fun _ ↦ ⟨rfl, rfl⟩
  · next hlow => exact fun hhigh ↦ absurd hhigh hlow

theorem isCopying_read : p.read.2.IsCopying := by
  intro hhigh
  rw [strobe_read] at hhigh
  rw [read, if_pos hhigh]
  exact ⟨rfl, rfl⟩

/-- While the strobe is high a read gives the first button. -/
theorem read_of_high (h : p.strobe = true) : p.read.1 = (bit p.held 0).toUInt8 := by
  rw [read, if_pos h]

namespace Shifts

/-- The reads give the buttons of the mask one by one, and then ones. -/
theorem read_fst (h : p.Shifts mask count) :
    p.read.1 = (decide (8 ≤ count) || bit mask count).toUInt8 := by
  have hlow := Bool.eq_false_iff.mp h.strobe
  rw [Pad.read, if_neg hlow, h.reads, h.copied]
  by_cases hdone : 8 ≤ count
  · rw [if_pos (by omega), decide_eq_true hdone]
    rfl
  · rw [if_neg (by omega), decide_eq_false hdone, Nat.min_eq_left (by omega)]
    rfl

theorem read (h : p.Shifts mask count) : p.read.2.Shifts mask (count + 1) := by
  have hlow := Bool.eq_false_iff.mp h.strobe
  refine ⟨strobe_read.trans h.strobe, ?_, ?_⟩
  all_goals
    rw [Pad.read, if_neg hlow, h.reads]
    split
  · exact h.copied
  · exact h.copied
  · exact h.reads.trans (by omega)
  · dsimp only
    omega

/-- Without a copy only the mask of the buttons held changes. -/
theorem setButtons (h : p.Shifts mask count) (new : UInt8) :
    (p.setButtons new).Shifts mask count := by
  rw [Pad.setButtons, follow_of_low (p := { p with held := new }) h.strobe]
  exact ⟨h.strobe, h.copied, h.reads⟩

theorem writeStrobe (h : p.Shifts mask count) {value : UInt8} (hlow : bit value 0 = false) :
    (p.writeStrobe value).Shifts mask count := by
  rw [Pad.writeStrobe, follow_of_low hlow]
  exact ⟨hlow, h.copied, h.reads⟩

end Shifts

/-- What the strobe falls on is read from the first button on. -/
theorem IsCopying.shifts (h : p.IsCopying) (hhigh : p.strobe = true) {value : UInt8}
    (hlow : bit value 0 = false) : (p.writeStrobe value).Shifts p.held 0 := by
  obtain ⟨hcopied, hreads⟩ := h hhigh
  rw [writeStrobe, follow_of_low hlow]
  exact ⟨hlow, hcopied, hreads⟩

end Pad

namespace Bus

/-! ## The wires -/

/-- The address at which a controller is read. -/
def port (i : Fin 2) : UInt16 := 0x4016 + UInt16.ofNat i.val

theorem ofAddress_port (i : Fin 2) : Region.ofAddress (port i) = .io ⟨0x16 + i.val, by omega⟩ := by
  revert i
  decide

theorem ofAddress_strobe : Region.ofAddress 0x4016 = .io 0x16 := by decide

variable (b : Bus)

theorem read_port (i : Fin 2) : b.read (port i) = b.readPad i := by
  rw [read, ofAddress_port]
  obtain rfl | rfl : i = 0 ∨ i = 1 := by omega
  · rfl
  · rfl

theorem pads_readPad (i j : Fin 2) :
    (b.readPad i).2.pads.get j = if i = j then (b.pads.get i).read.2 else b.pads.get j := by
  change (b.pads.set i.val (b.pads.get i).read.2 i.isLt)[j.val] = _
  rw [Vector.getElem_set]
  simp only [Fin.ext_iff]
  rfl

/-- A controller is changed by the reads of its own port alone. -/
theorem pads_read (addr : UInt16) (i : Fin 2) :
    (b.read addr).2.pads.get i =
      if addr = port i then (b.pads.get i).read.2 else b.pads.get i := by
  split
  · next hport => rw [hport, read_port, pads_readPad, if_pos rfl]
  · next hport =>
    -- what is read at the port of the other controller changes the other
    have hother {j : Fin 2} (hj : addr = port j) : (b.readPad j).2.pads.get i = b.pads.get i := by
      rw [pads_readPad, if_neg fun h ↦ hport (hj.trans (congrArg port h))]
    unfold read
    split
    · rfl
    · rfl
    · next offset hregion =>
      have haddr := Region.toNat_of_io hregion
      unfold readIo
      split
      · rfl
      · exact hother (UInt16.toNat_inj.mp haddr)
      · exact hother (UInt16.toNat_inj.mp haddr)
      · rfl
    · rfl
    · split <;> rfl

theorem pads_write_strobe (value : UInt8) :
    (b.write 0x4016 value).pads = b.pads.map (·.writeStrobe value) := by
  rw [write, ofAddress_strobe]
  rfl

/-- No write but that of the strobe reaches the controllers. -/
theorem pads_write {addr : UInt16} (h : addr ≠ 0x4016) (value : UInt8) :
    (b.write addr value).pads = b.pads := by
  unfold write
  cases hregion : Region.ofAddress addr with
  | ram | testBlock | cartridge => rfl
  | picture index =>
    dsimp only [writePicture]
    split <;> rfl
  | io offset =>
    dsimp only [writeIo]
    split
    · rfl
    · exact absurd (UInt16.toNat_inj.mp (Region.toNat_of_io hregion)) h
    · rfl

namespace Step

/-- The level that a step sets the strobe to. -/
def strobe? : Step → Option Bool
  | .write addr value => if addr = 0x4016 then some (bit value 0) else none
  | .reset _ => some false
  | _ => none

/-- The mask of a controller after a step. -/
def remask (i : Fin 2) (mask : UInt8) : Step → UInt8
  | .hold j new => if j = i then new else mask
  | .press j button pressed =>
    if j = i then (if pressed then mask ||| button.mask else mask &&& ~~~button.mask) else mask
  | _ => mask

/-- The step reads a controller. -/
def readsPort (i : Fin 2) : Step → Bool
  | .read addr => addr = port i
  | _ => false

/-- A controller after a step. -/
def onPad (i : Fin 2) (p : Pad) : Step → Pad
  | .read addr => if addr = port i then p.read.2 else p
  | .write addr value => if addr = 0x4016 then p.writeStrobe value else p
  | .hold j mask => if j = i then p.setButtons mask else p
  | .press j button pressed => if j = i then p.setButton button pressed else p
  | .reset _ => p.writeStrobe 0
  | _ => p

end Step

/-- A step does to each controller what it says. -/
theorem get_pads_act (step : Step) (i : Fin 2) :
    (b.act step).pads.get i = step.onPad i (b.pads.get i) := by
  have hmodify (j : Fin 2) (change : Pad → Pad) :
      ((b.modifyPad? j.val change).getD b).pads.get i =
        if j = i then change (b.pads.get i) else b.pads.get i := by
    rw [modifyPad?_getD]
    change (b.pads.setIfInBounds j.val (change (b.pads.get j)))[i.val] = _
    rw [Vector.getElem_setIfInBounds]
    by_cases hpad : j = i
    · rw [hpad, if_pos rfl, if_pos rfl]
    · rw [if_neg fun h ↦ hpad (Fin.ext h), if_neg hpad]
      rfl
  have hmap (change : Pad → Pad) : (b.pads.map change).get i = change (b.pads.get i) :=
    Vector.getElem_map ..
  cases step with
  | read addr => exact b.pads_read addr i
  | write addr value =>
    by_cases hstrobe : addr = 0x4016
    · rw [act, hstrobe, pads_write_strobe, hmap]
      rfl
    · rw [act, b.pads_write hstrobe, Step.onPad, if_neg hstrobe]
  | hold j mask => exact hmodify j _
  | press j button pressed => exact hmodify j _
  | reset powerCycle => exact hmap _
  | takeTransfer | clockPicture | clockSound => rfl

/-! ## The strobe and the buttons -/

/-- The level of the strobe after a history. -/
def strobeAfter (history : List Step) : Bool := (lastOf Step.strobe? history).getD false

/-- The buttons of a controller that are held after a history. -/
def maskAfter (i : Fin 2) (history : List Step) : UInt8 := history.foldl (Step.remask i) 0

/-- What a history says about a controller is so. -/
structure IsAfter (i : Fin 2) (history : List Step) (p : Pad) : Prop where
  strobe : p.strobe = strobeAfter history
  held : p.held = maskAfter i history
  copying : p.IsCopying

theorem strobeAfter_concat (history : List Step) (step : Step) :
    strobeAfter (history ++ [step]) = step.strobe?.getD (strobeAfter history) := by
  rw [strobeAfter, lastOf_concat, strobeAfter]
  cases step.strobe? <;> rfl

theorem maskAfter_concat (i : Fin 2) (history : List Step) (step : Step) :
    maskAfter i (history ++ [step]) = step.remask i (maskAfter i history) := List.foldl_concat ..

namespace Step

variable (step : Step) (i : Fin 2) (p : Pad)

/-- What a step can do to a controller: nothing, a read, a write of the strobe, or a change of the
buttons held. -/
theorem onPad_cases :
    (step.onPad i p = p ∧ step.strobe? = none ∧ step.remask i p.held = p.held ∧
        step.readsPort i = false) ∨
      (step.onPad i p = p.read.2 ∧ step.strobe? = none ∧ step.remask i p.held = p.held ∧
        step.readsPort i = true) ∨
      (∃ value, step.onPad i p = p.writeStrobe value ∧ step.strobe? = some (bit value 0) ∧
        step.remask i p.held = p.held ∧ step.readsPort i = false) ∨
      (step.onPad i p = p.setButtons (step.remask i p.held) ∧ step.strobe? = none ∧
        step.readsPort i = false) := by
  cases step with
  | read addr =>
    by_cases hport : addr = port i
    · exact Or.inr (Or.inl ⟨if_pos hport, rfl, rfl, decide_eq_true hport⟩)
    · exact Or.inl ⟨if_neg hport, rfl, rfl, decide_eq_false hport⟩
  | write addr value =>
    by_cases hstrobe : addr = 0x4016
    · exact Or.inr (Or.inr (Or.inl ⟨value, if_pos hstrobe, if_pos hstrobe, rfl, rfl⟩))
    · exact Or.inl ⟨if_neg hstrobe, if_neg hstrobe, rfl, rfl⟩
  | hold j mask | press j button pressed =>
    by_cases hpad : j = i
    · refine Or.inr (Or.inr (Or.inr ⟨(if_pos hpad).trans ?_, rfl, rfl⟩))
      exact congrArg p.setButtons (if_pos hpad).symm
    · exact Or.inl ⟨if_neg hpad, rfl, if_neg hpad, rfl⟩
  | reset powerCycle => exact Or.inr (Or.inr (Or.inl ⟨0, rfl, rfl, rfl, rfl⟩))
  | takeTransfer | clockPicture | clockSound => exact Or.inl ⟨rfl, rfl, rfl, rfl⟩

theorem strobe_onPad : (step.onPad i p).strobe = step.strobe?.getD p.strobe := by
  rcases step.onPad_cases i p with ⟨h, hstrobe, -, -⟩ | ⟨h, hstrobe, -, -⟩ |
    ⟨value, h, hstrobe, -, -⟩ | ⟨h, hstrobe, -⟩ <;> rw [h, hstrobe]
  · rfl
  · exact Pad.strobe_read
  · exact Pad.strobe_follow
  · exact Pad.strobe_follow

theorem held_onPad : (step.onPad i p).held = step.remask i p.held := by
  rcases step.onPad_cases i p with ⟨h, -, hmask, -⟩ | ⟨h, -, hmask, -⟩ | ⟨value, h, -, hmask, -⟩ |
    ⟨h, -, -⟩
  · rw [h, hmask]
  · rw [h, hmask, Pad.held_read]
  · rw [h, hmask]
    exact Pad.held_follow
  · rw [h]
    exact Pad.held_follow

variable {p}

theorem isCopying_onPad (h : p.IsCopying) : (step.onPad i p).IsCopying := by
  rcases step.onPad_cases i p with ⟨hpad, -⟩ | ⟨hpad, -⟩ | ⟨value, hpad, -⟩ | ⟨hpad, -⟩ <;>
    rw [hpad]
  · exact h
  · exact Pad.isCopying_read
  · exact Pad.isCopying_follow
  · exact Pad.isCopying_follow

/-- The strobe falls on the buttons held at that moment. -/
theorem shifts_of_fall (h : p.IsCopying) (hhigh : p.strobe = true)
    (hfall : step.strobe? = some false) : (step.onPad i p).Shifts p.held 0 := by
  rcases step.onPad_cases i p with ⟨-, hstrobe, -⟩ | ⟨-, hstrobe, -⟩ | ⟨value, hpad, hstrobe, -⟩ |
    ⟨-, hstrobe, -⟩
  · exact absurd (hstrobe.symm.trans hfall) nofun
  · exact absurd (hstrobe.symm.trans hfall) nofun
  · rw [hpad]
    exact h.shifts hhigh (Option.some.inj (hstrobe.symm.trans hfall))
  · exact absurd (hstrobe.symm.trans hfall) nofun

/-- As long as no step raises the strobe, the reads are counted against the mask. -/
theorem shifts_onPad {mask : UInt8} {count : Nat} (h : p.Shifts mask count)
    (hlow : step.strobe? ≠ some true) :
    (step.onPad i p).Shifts mask (count + if step.readsPort i then 1 else 0) := by
  rcases step.onPad_cases i p with ⟨hpad, -, -, hreads⟩ | ⟨hpad, -, -, hreads⟩ |
    ⟨value, hpad, hstrobe, -, hreads⟩ | ⟨hpad, -, hreads⟩ <;> rw [hpad, hreads]
  · exact h
  · exact h.read
  · rw [hstrobe] at hlow
    exact h.writeStrobe (Bool.eq_false_iff.mpr fun hhigh ↦ hlow (congrArg some hhigh))
  · exact h.setButtons _

end Step

theorem IsAfter.onPad {i : Fin 2} {history : List Step} {p : Pad} (h : IsAfter i history p)
    (step : Step) : IsAfter i (history ++ [step]) (step.onPad i p) where
  strobe := by rw [step.strobe_onPad, h.strobe, strobeAfter_concat]
  held := by rw [step.held_onPad, h.held, maskAfter_concat]
  copying := step.isCopying_onPad i h.copying

theorem isAfter_run (tv : Television) (slot : Slot) (i : Fin 2) (history : List Step) :
    IsAfter i history (((powerOn tv slot).run history).pads.get i) := by
  induction history using List.reverseRecOn with
  | nil =>
    have hnew : (powerOn tv slot).pads.get i = {} := Vector.getElem_replicate ..
    rw [run_nil, hnew]
    exact ⟨rfl, rfl, fun _ ↦ ⟨rfl, rfl⟩⟩
  | append_singleton history step ih =>
    rw [run_concat, get_pads_act]
    exact ih.onPad step

/-- From a fall of the strobe on, as long as it stays low, the reads are counted. -/
theorem shifts_run {b : Bus} {i : Fin 2} {mask : UInt8} (h : (b.pads.get i).Shifts mask 0)
    {after : List Step} (hlow : ∀ step ∈ after, step.strobe? ≠ some true) :
    ((b.run after).pads.get i).Shifts mask (after.countP (Step.readsPort i)) := by
  induction after using List.reverseRecOn with
  | nil => exact h
  | append_singleton after step ih =>
    have hbefore := ih fun earlier hearlier ↦ hlow earlier (List.mem_append_left _ hearlier)
    have hlast := hlow step (List.mem_append_right _ List.mem_cons_self)
    rw [run_concat, get_pads_act, List.countP_append, List.countP_singleton]
    exact step.shifts_onPad i hbefore hlast

/-! ## The protocol -/

/-- What a controller drives is put on the bus beside the bits that nothing drives. -/
theorem read_port_fst (b : Bus) (i : Fin 2) {value : Bool}
    (h : (b.pads.get i).read.1 = value.toUInt8) : (b.read (port i)).1 = 0x40 + value.toUInt8 := by
  have hread : (b.read (port i)).1 = (b.pads.get i).read.1 ||| padOpenBus := by
    rw [read_port]
    rfl
  rw [hread, h]
  cases value <;> rfl

/-- While the strobe is high, a read of a port gives the first button held. From a fall of the
strobe on, as long as it is not raised again, the reads of a port give one by one the buttons that
were held when it fell, and then ones. A controller is reached by the reads of its own port and by
the writes of the strobe alone. -/
theorem controllers_serial (tv : Television) (slot : Slot) :
    (∀ history i, strobeAfter history = true →
        (((powerOn tv slot).run history).read (port i)).1 =
          0x40 + (bit (maskAfter i history) 0).toUInt8) ∧
      (∀ before fall after i, strobeAfter before = true → fall.strobe? = some false →
        (∀ step ∈ after, step.strobe? ≠ some true) →
        (((powerOn tv slot).run (before ++ fall :: after)).read (port i)).1 =
          let k := after.countP (Step.readsPort i)
          if k < 8 then 0x40 + (bit (maskAfter i before) k).toUInt8 else 0x41) ∧
      (∀ (b : Bus) addr i, addr ≠ port i → (b.read addr).2.pads.get i = b.pads.get i) ∧
      ∀ (b : Bus) addr value, addr ≠ 0x4016 → (b.write addr value).pads = b.pads := by
  refine ⟨?_, ?_, ?_, ?_⟩
  · intro history i hhigh
    have hafter := isAfter_run tv slot i history
    refine read_port_fst _ i ?_
    rw [Pad.read_of_high (hafter.strobe.trans hhigh), hafter.held]
  · intro before fall after i hhigh hfall hlow
    have hbefore := isAfter_run tv slot i before
    have hshifts := fall.shifts_of_fall i hbefore.copying (hbefore.strobe.trans hhigh) hfall
    rw [← get_pads_act, hbefore.held] at hshifts
    have hvalue := read_port_fst _ i (shifts_run hshifts hlow).read_fst
    rw [run_append, run_cons, hvalue]
    dsimp only
    split
    · next hleft => rw [decide_eq_false (Nat.not_le.mpr hleft), Bool.false_or]
    · next hdone => rw [decide_eq_true (Nat.not_lt.mp hdone), Bool.true_or]; rfl
  · intro b addr i haddr
    rw [pads_read, if_neg haddr]
  · exact fun b addr value haddr ↦ b.pads_write haddr value

/-- A and Select are held when the strobe falls, and all buttons afterwards. The second button read
is B, which was not held. -/
theorem controllers_serial_second :
    (((powerOn .ntsc .empty).run [.hold 0 0x05, .write 0x4016 0x01]).read (port 0)).1 = 0x41 ∧
      (((powerOn .ntsc .empty).run ([.hold 0 0x05, .write 0x4016 0x01] ++
        .write 0x4016 0x00 :: [.read 0x4016, .hold 0 0xff])).read (port 0)).1 = 0x40 ∧
      ((powerOn .ntsc .empty).read 0x4017).2.pads.get 0 = (powerOn .ntsc .empty).pads.get 0 ∧
      ((powerOn .ntsc .empty).write 0x4017 0x01).pads = (powerOn .ntsc .empty).pads := by
  obtain ⟨hcopies, hshifts, hread, hwrite⟩ := controllers_serial .ntsc .empty
  have hhigh : strobeAfter [.hold 0 0x05, .write 0x4016 0x01] = true := by decide
  have hlow : ∀ step ∈ [Step.read 0x4016, .hold 0 0xff], step.strobe? ≠ some true := by decide
  refine ⟨?_, ?_, hread _ 0x4017 0 (by decide), hwrite _ 0x4017 0x01 (by decide)⟩
  · exact (hcopies _ 0 hhigh).trans (by decide)
  · exact (hshifts _ (.write 0x4016 0x00) _ 0 hhigh rfl hlow).trans (by decide)

end Bus

end Famicom
