import Mathlib.Data.List.DropRight
import Famicom.Proofs.Picture.Blanking
import Famicom.Proofs.Picture.DataPort

/-!
# The scroll position and the address

A program sets two things in the picture chip by pairs of writes, the scroll position and the
address of the data port, and both are assembled in one word of fifteen bits,

```text
yyy NN YYYYY XXXXX        c, a, b   ↦   b % 8, c % 4, b / 8, a / 8
                          h, l      ↦   (h % 64) · 256 + l.
```

A single toggle tells the first write of a pair from the second, for both registers, and a read of
the status register says that a pair starts. So what a write does depends on all that has been
written before it. This module says how (`Ppu.scroll_protocol`): the toggle is the parity of the
writes since the last pair was started, the address in use changes with the second write of an
address alone, and once a pair is started the two registers set what they are given, whatever was
there before.

The nametable bits of a scroll position come from the control register. They are apart from the bits
that the pair sets, and therefore the control register may be written before, between or after.
-/

namespace Famicom

/-! ## One write -/

namespace ScrollAddress

/-- Two bits of a byte choose the nametable. -/
theorem table_of_bits (value : UInt8) :
    2 * (bit value 1).toNat + (bit value 0).toNat = value.toNat % 4 := by
  have hlow : (bit value 0).toNat = value.toNat % 2 := by
    rw [bit, Nat.toNat_testBit, Nat.pow_zero, Nat.div_one]
  have hhigh : (bit value 1).toNat = value.toNat / 2 % 2 := by
    rw [bit, Nat.toNat_testBit, Nat.pow_one]
  rw [hlow, hhigh]
  omega

/-- The position that the bytes of a scroll position and of the control register describe. -/
def ofScroll (column line table : UInt8) : ScrollAddress where
  coarseX := low5 (column.toNat / 8)
  coarseY := low5 (line.toNat / 8)
  right := bit table 0
  lower := bit table 1
  fineY := low3 line.toNat

theorem word_ofScroll (column line table : UInt8) :
    (ofScroll column line table).word =
      line.toNat % 8 * 4096 + table.toNat % 4 * 1024 + line.toNat / 8 * 32 + column.toNat / 8 := by
  have hcolumn := column.toNat_lt
  have hline := line.toNat_lt
  have hrow : line.toNat / 8 % 32 = line.toNat / 8 := Nat.mod_eq_of_lt (by omega)
  have htile : column.toNat / 8 % 32 = column.toNat / 8 := Nat.mod_eq_of_lt (by omega)
  rw [word, ScrollAddress.table, ofScroll, table_of_bits, val_low3, val_low5, val_low5, hrow, htile]

end ScrollAddress

namespace Controls

variable (c : Controls) (value : UInt8)

@[simp] theorem secondWrite_writeScroll :
    (c.writeScroll value).secondWrite = !c.secondWrite := by
  unfold writeScroll
  dsimp only
  split <;> simp only [*, Bool.not_true, Bool.not_false]

@[simp] theorem secondWrite_writeAddress :
    (c.writeAddress value).secondWrite = !c.secondWrite := by
  unfold writeAddress
  split <;> simp only [*, Bool.not_true, Bool.not_false]

@[simp] theorem v_writeScroll : (c.writeScroll value).v = c.v := by
  unfold writeScroll
  dsimp only
  split <;> rfl

/-- The second write of an address puts it in use. -/
theorem v_writeAddress :
    (c.writeAddress value).v = if c.secondWrite then (c.writeAddress value).t else c.v := by
  unfold writeAddress
  split <;> rfl

@[simp] theorem secondWrite_advance (fetching : Bool) :
    (c.advance fetching).secondWrite = c.secondWrite := by
  unfold advance
  split <;> rfl

end Controls

namespace Ppu

/-! ## The actions -/

namespace Action

/-- An action is a write of a pair. -/
def isPaired : Action → Bool
  | .write index _ => index.val = 5 || index.val = 6
  | _ => false

/-- An action writes half of an address. -/
def isAddressWrite : Action → Bool
  | .write index _ => index.val = 6
  | _ => false

/-- After an action the next write of a pair is its first. -/
def startsPair (action : Action) : Bool := action.isStatusRead || action.isReset

/-- An action accesses a register other than the data port. -/
def isSetting : Action → Bool
  | .read _ index => index.val ≠ 7
  | .write index _ => index.val ≠ 7
  | _ => false

/-- The actions after the last one that has started a pair. -/
def sinceStart (actions : List Action) : List Action :=
  actions.rtakeWhile fun action ↦ !action.startsPair

/-- An odd number of the actions are writes of pairs. -/
def oddlyPaired (actions : List Action) : Bool := actions.countP isPaired % 2 = 1

theorem sinceStart_concat (actions : List Action) (action : Action) :
    sinceStart (actions ++ [action]) =
      if action.startsPair then [] else sinceStart actions ++ [action] := by
  rw [sinceStart, List.rtakeWhile_concat]
  cases action.startsPair <;> rfl

theorem oddlyPaired_concat (actions : List Action) (action : Action) :
    oddlyPaired (actions ++ [action]) = (oddlyPaired actions ^^ action.isPaired) := by
  rw [oddlyPaired, oddlyPaired, List.countP_append, List.countP_singleton]
  cases action.isPaired with
  | false => exact (Bool.xor_false _).symm
  | true =>
    rw [if_pos rfl, Bool.xor_true, ← decide_not, decide_eq_decide]
    omega

end Action

/-! ## The toggle and the address in use -/

variable (p : Ppu)

/-- A dot moves the address in use at most. -/
theorem controls_tick (fetch : UInt16 → UInt8) :
    ∃ v, (p.tick fetch).ppu.controls = { p.controls with v } := by
  obtain ⟨⟨v, _, _, _, _, _, _, htick⟩, -⟩ := p.tick_eq fetch
  exact ⟨v, by rw [htick]⟩

theorem secondWrite_readData (fetch : UInt16 → UInt8) :
    (p.readData fetch).2.controls.secondWrite = p.controls.secondWrite := by
  unfold readData
  dsimp only
  split
  · exact Controls.secondWrite_advance _ _
  · exact Controls.secondWrite_advance _ _

theorem secondWrite_writeData (value : UInt8) :
    (p.writeData value).1.controls.secondWrite = p.controls.secondWrite := by
  unfold writeData
  dsimp only
  split
  · exact Controls.secondWrite_advance _ _
  · exact Controls.secondWrite_advance _ _

/-- A read of the status register sets the toggle back. -/
theorem secondWrite_busRead (fetch : UInt16 → UInt8) (index : Fin 8) :
    (p.busRead fetch index).2.controls.secondWrite =
      (!decide (index.val = 2) && p.controls.secondWrite) := by
  unfold busRead
  split
  · rfl
  · rfl
  · exact secondWrite_readData _ fetch
  · next hstatus _ _ =>
    have hindex : index.val ≠ 2 := fun h ↦ hstatus (Fin.ext h)
    rw [decide_eq_false hindex]
    rfl

/-- Each write of a pair turns the toggle. -/
theorem secondWrite_busWrite (index : Fin 8) (value : UInt8) :
    (p.busWrite index value).1.controls.secondWrite =
      (p.controls.secondWrite ^^ (decide (index.val = 5) || decide (index.val = 6))) := by
  unfold busWrite
  split
  case h_6 => exact (Controls.secondWrite_writeScroll _ value).trans (Bool.xor_true _).symm
  case h_7 => exact (Controls.secondWrite_writeAddress _ value).trans (Bool.xor_true _).symm
  case h_8 => exact (secondWrite_writeData _ value).trans (Bool.xor_false _).symm
  all_goals exact (Bool.xor_false _).symm

/-- No read but that of the data port moves the address in use. -/
theorem v_busRead (fetch : UInt16 → UInt8) {index : Fin 8} (h : index.val ≠ 7) :
    (p.busRead fetch index).2.controls.v = p.controls.v := by
  unfold busRead
  split
  · rfl
  · rfl
  · exact absurd rfl h
  · rfl

/-- No write but those to the data port and the second half of an address moves the address in
use. -/
theorem v_busWrite {index : Fin 8} (h : index.val ≠ 7) (value : UInt8) :
    (p.busWrite index value).1.controls.v =
      if decide (index.val = 6) && p.controls.secondWrite then
        (p.busWrite index value).1.controls.t
      else p.controls.v := by
  unfold busWrite
  split
  case h_6 => exact Controls.v_writeScroll _ value
  case h_7 => exact Controls.v_writeAddress _ value
  case h_8 => exact absurd rfl h
  all_goals rfl

/-- Starting a pair sets the toggle back, the writes of pairs turn it, and nothing else touches
it. -/
theorem secondWrite_act (action : Action) :
    (p.act action).controls.secondWrite =
      (!action.startsPair && (p.controls.secondWrite ^^ action.isPaired)) := by
  cases action with
  | dot fetch =>
    obtain ⟨v, htick⟩ := p.controls_tick fetch
    rw [act, htick]
    exact (Bool.xor_false _).symm
  | read fetch index =>
    have hstarts : (Action.read fetch index).startsPair = decide (index.val = 2) := Bool.or_false _
    rw [act, secondWrite_busRead, hstarts]
    exact congrArg _ (Bool.xor_false _).symm
  | write index value => exact p.secondWrite_busWrite index value
  | reset => rfl

/-- A register other than the data port puts an address in use with the second write of one. -/
theorem v_act {action : Action} (h : action.isSetting = true) :
    (p.act action).controls.v =
      if action.isAddressWrite && p.controls.secondWrite then (p.act action).controls.t
      else p.controls.v := by
  cases action with
  | dot | reset => exact absurd h Bool.false_ne_true
  | read fetch index => exact p.v_busRead fetch (of_decide_eq_true h)
  | write index value => exact p.v_busWrite (of_decide_eq_true h) value

/-- The toggle is the parity of the writes since a pair has been started, or what it was if none
has. -/
theorem secondWrite_run (actions : List Action) :
    (p.run actions).controls.secondWrite =
      ((!actions.any Action.startsPair && p.controls.secondWrite) ^^
        Action.oddlyPaired (Action.sinceStart actions)) := by
  induction actions using List.reverseRecOn with
  | nil => exact (Bool.xor_false _).symm
  | append_singleton actions action ih =>
    rw [run_append, run_cons, run_nil, secondWrite_act, ih, Action.sinceStart_concat,
      List.any_append, List.any_cons, List.any_nil, Bool.or_false]
    cases action.startsPair with
    | true => rw [Bool.or_true, if_pos rfl]; rfl
    | false =>
      rw [Bool.or_false, if_neg Bool.false_ne_true, Action.oddlyPaired_concat, ← Bool.xor_assoc]
      rfl

/-! ## Whole pairs -/

/-- The writes of a scroll position, with that of its nametable in one of three places. -/
def scrollWrites (column line table : UInt8) (i : Fin 3) : List Action :=
  [.write (low3 5) column, .write (low3 5) line].insertIdx i.val (.write (low3 0) table)

/-- The writes of an address. -/
def addressWrites (high low : UInt8) : List Action :=
  [.write (low3 6) high, .write (low3 6) low]

variable {p}

/-- A scroll position replaces all of the word that is being assembled. -/
theorem controls_scrollWrites (h : p.controls.secondWrite = false) (column line table : UInt8)
    (i : Fin 3) :
    ∃ ioBus, (p.run (scrollWrites column line table i)).controls =
      { p.controls with
        control := table
        ioBus
        t := .ofScroll column line table
        fineX := low3 column.toNat
        secondWrite := false } := by
  obtain ⟨i, hi⟩ := i
  obtain rfl | rfl | rfl : i = 0 ∨ i = 1 ∨ i = 2 := by omega
  -- wherever the control register is written, the four parts of the word do not overlap
  all_goals
    constructor
    · simp only [scrollWrites, List.insertIdx_zero, List.insertIdx_succ_cons, run_cons, run_nil,
        act, busWrite, Controls.writeControl, Controls.writeScroll, h, Bool.false_eq_true, if_false]
      rfl

/-- The two writes of an address put it in use. -/
theorem controls_addressWrites (h : p.controls.secondWrite = false) (high low : UInt8) :
    (p.run (addressWrites high low)).controls =
      { p.controls with
        ioBus := low
        v := .ofWord (high.toNat % 64 * 256 + low.toNat)
        t := .ofWord (high.toNat % 64 * 256 + low.toNat) } :=
  Controls.writeAddress_writeAddress h high low high

/-- The toggle is the parity of the writes of pairs since the last read of the status register or
reset. No register but the data port changes the address in use, except by the second write of an
address, which puts it in use. After a read of the status register a scroll position is set whole by
its two writes and one to the control register, in any of its three places, without a change to the
address in use; and an address is set and put in use by its two writes, without a change to the fine
scroll. -/
theorem scroll_protocol (p : Ppu) :
    (∀ actions, (p.run actions).controls.secondWrite =
        ((!actions.any Action.startsPair && p.controls.secondWrite) ^^
          Action.oddlyPaired (Action.sinceStart actions))) ∧
      (∀ actions action, action.isSetting = true →
        (p.run (actions ++ [action])).controls.v =
          if action.isAddressWrite && (p.run actions).controls.secondWrite then
            (p.run (actions ++ [action])).controls.t
          else (p.run actions).controls.v) ∧
      (∀ fetch column line table i,
        let c := (p.run (.read fetch 2 :: scrollWrites column line table i)).controls
        c.t.word = line.toNat % 8 * 4096 + table.toNat % 4 * 1024 + line.toNat / 8 * 32 +
            column.toNat / 8 ∧
          c.fineX.val = column.toNat % 8 ∧ c.v = p.controls.v ∧ c.secondWrite = false) ∧
      ∀ fetch high low,
        let c := (p.run (.read fetch 2 :: addressWrites high low)).controls
        c.v = c.t ∧ c.t.word = high.toNat % 64 * 256 + low.toNat ∧
          c.fineX = p.controls.fineX ∧ c.secondWrite = false := by
  refine ⟨p.secondWrite_run, ?_, ?_, ?_⟩
  · intro actions action hsetting
    rw [run_append, run_cons, run_nil]
    exact v_act _ hsetting
  · intro fetch column line table i
    obtain ⟨ioBus, hcontrols⟩ := controls_scrollWrites (p := (p.busRead fetch 2).2)
      rfl column line table i
    rw [run_cons, act, hcontrols]
    exact ⟨ScrollAddress.word_ofScroll column line table, rfl, rfl, rfl⟩
  · intro fetch high low
    have hcontrols := controls_addressWrites (p := (p.busRead fetch 2).2) rfl high low
    have hlow := low.toNat_lt
    rw [run_cons, act, hcontrols]
    refine ⟨rfl, ?_, rfl, rfl⟩
    rw [ScrollAddress.word_ofWord]
    omega

/-- The second write of an address, on a chip just switched on. -/
theorem scroll_protocol_powerOn :
    (Action.write 6 0x08).isSetting = true ∧
      ((powerOn .ntsc).run ([.write 6 0x21] ++ [.write 6 0x08])).controls.v.word = 0x2108 := by
  have hsetting : (Action.write 6 0x08).isSetting = true := rfl
  have hv := (scroll_protocol (powerOn .ntsc)).2.1 [.write 6 0x21] (.write 6 0x08) hsetting
  refine ⟨hsetting, ?_⟩
  rw [hv]
  decide

end Ppu

end Famicom
