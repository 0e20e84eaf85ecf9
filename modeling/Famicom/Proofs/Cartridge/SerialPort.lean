import Famicom.Cartridge.Board
import Mathlib.Data.List.Induction
import Mathlib.Logic.Function.Basic

/-!
# The serial port of an MMC1 board

A board sees its writes one at a time and keeps no more of them than a few bits. Here the bank
registers are read off the whole history of writes at once: `SerialBanks.effects` leaves out what
does not go to the port, splits the rest at the writes with bit 7 set, and cuts each stretch in
between into fives from its start. A complete five loads the register that its last write names, and
between two stretches the program mode is forced. What is left of a stretch does nothing.

## The invariant

Between two writes the board holds the writes of a stretch that make no five yet
(`SerialBanks.Holds`): their number in the count, and their bits in the shift register, where every
write moves those before it down. A board that holds some writes is where the rest of the history
would be read together with them (`SerialBanks.Holds.register_writeAll`), and this goes through by
induction on the rest, since a write is added to those held, completes a five with them, or discards
them.
-/

namespace Famicom

namespace SerialBanks

/-! ## Reading a history -/

/-- What the port does to the registers. -/
inductive Effect where
  | load (register : BankRegister) (value : Nat)
  /-- The program mode that fixes the last bank is forced. -/
  | force
  deriving DecidableEq, Repr

/-- The registers after an effect. -/
def Effect.apply (registers : BankRegister → Nat) : Effect → BankRegister → Nat
  | load register value => Function.update registers register value
  | force => Function.update registers .control (registers .control ||| 0b01100)

/-- A write goes to the port. -/
def isPort (write : UInt16 × UInt8) : Bool := 0x8000 ≤ write.1

/-- A write ends a stretch. -/
def isForce (write : UInt16 × UInt8) : Bool := bit write.2 7

/-- The bit that a write brings. -/
def bitOf (write : UInt16 × UInt8) : Nat := (bit write.2 0).toNat

/-- The register that an address names by its bits 13 and 14. -/
def registerNamed (addr : UInt16) : BankRegister :=
  match addr.toNat.testBit 14, addr.toNat.testBit 13 with
  | false, false => .control
  | false, true => .pattern0
  | true, false => .pattern1
  | true, true => .program

/-- The arrangement that a control register names by its bits 0 and 1. -/
def arrangementNamed (control : Nat) : Mirroring :=
  match control.testBit 1, control.testBit 0 with
  | false, false => .singleScreenLower
  | false, true => .singleScreenUpper
  | true, false => .vertical
  | true, true => .horizontal

/-- What a stretch of writes to the port does, by fives from its start. -/
def stretchEffects : List (UInt16 × UInt8) → List Effect
  | w₀ :: w₁ :: w₂ :: w₃ :: w₄ :: rest =>
    .load (registerNamed w₄.1)
        (bitOf w₀ + 2 * bitOf w₁ + 4 * bitOf w₂ + 8 * bitOf w₃ + 16 * bitOf w₄) ::
      stretchEffects rest
  | _ => []

/-- What a sequence of writes to the port does. -/
def portEffects (writes : List (UInt16 × UInt8)) : List Effect :=
  List.intercalate [.force] ((writes.splitOnP isForce).map stretchEffects)

/-- What a history of writes does. -/
def effects (writes : List (UInt16 × UInt8)) : List Effect := portEffects (writes.filter isPort)

/-- Two neighbouring bits of a number are a number below four. -/
theorem bits_eq_mod_four (n i : Nat) :
    (n >>> i) % 4 = 2 * (n.testBit (i + 1)).toNat + (n.testBit i).toNat := by
  rw [Nat.toNat_testBit, Nat.toNat_testBit, Nat.shiftRight_eq_div_pow, Nat.pow_succ,
    ← Nat.div_div_eq_div_mul]
  omega

theorem ofAddress_eq (addr : UInt16) : BankRegister.ofAddress addr = registerNamed addr := by
  have hbits := bits_eq_mod_four addr.toNat 13
  rw [Nat.shiftRight_eq_div_pow] at hbits
  change addr.toNat / 0x2000 % 4 = _ at hbits
  rw [BankRegister.ofAddress, registerNamed, hbits]
  cases addr.toNat.testBit 14 <;> cases addr.toNat.testBit 13 <;> rfl

theorem arrangementOf_eq (control : Nat) : arrangementOf control = arrangementNamed control := by
  have hbits := bits_eq_mod_four control 0
  rw [Nat.shiftRight_zero] at hbits
  rw [arrangementOf, arrangementNamed, hbits]
  cases control.testBit 1 <;> cases control.testBit 0 <;> rfl

theorem portEffects_of_short {writes : List (UInt16 × UInt8)}
    (hbits : ∀ w ∈ writes, isForce w = false) (hshort : writes.length < 5) :
    portEffects writes = [] := by
  rw [portEffects, List.splitOnP_eq_singleton hbits, List.map_singleton, List.intercalate_singleton]
  match writes, hshort with
  | [], _ | [_], _ | [_, _], _ | [_, _, _], _ | [_, _, _, _], _ => rfl

/-- A stretch that is too short for a five does nothing before the program mode is forced. -/
theorem portEffects_force {held : List (UInt16 × UInt8)} (hbits : ∀ w ∈ held, isForce w = false)
    (hshort : held.length < 5) {w : UInt16 × UInt8} (hw : isForce w = true)
    (rest : List (UInt16 × UInt8)) :
    portEffects (held ++ w :: rest) = .force :: portEffects rest := by
  have hheld := portEffects_of_short hbits hshort
  rw [portEffects, List.splitOnP_eq_singleton hbits, List.map_singleton,
    List.intercalate_singleton] at hheld
  rw [portEffects, List.splitOnP_append_cons_of_forall_mem hbits _ hw, List.map_cons, hheld,
    portEffects]
  obtain ⟨stretch, stretches, hsplit⟩ :=
    List.exists_cons_of_ne_nil (List.splitOnP_ne_nil isForce rest)
  rw [hsplit, List.map_cons, List.intercalate_cons_cons]
  rfl

/-- A five at the start of a stretch loads a register. -/
theorem portEffects_five {w₀ w₁ w₂ w₃ w₄ : UInt16 × UInt8}
    (hbits : ∀ w ∈ [w₀, w₁, w₂, w₃, w₄], isForce w = false) (rest : List (UInt16 × UInt8)) :
    portEffects (w₀ :: w₁ :: w₂ :: w₃ :: w₄ :: rest) =
      .load (registerNamed w₄.1)
          (bitOf w₀ + 2 * bitOf w₁ + 4 * bitOf w₂ + 8 * bitOf w₃ + 16 * bitOf w₄) ::
        portEffects rest := by
  simp only [List.forall_mem_cons] at hbits
  obtain ⟨h₀, h₁, h₂, h₃, h₄, -⟩ := hbits
  obtain ⟨stretch, stretches, hsplit⟩ :=
    List.exists_cons_of_ne_nil (List.splitOnP_ne_nil isForce rest)
  simp only [portEffects, List.splitOnP_cons_eq_if_modifyHead, h₀, h₁, h₂, h₃, h₄, hsplit,
    Bool.false_eq_true, if_false, List.modifyHead_cons, List.map_cons, stretchEffects]
  cases stretches with
  | nil => simp only [List.map_nil, List.intercalate_singleton]
  | cons next others => simp only [List.map_cons, List.intercalate_cons_cons, List.cons_append]

/-! ## The registers of a board -/

/-- What a register holds. -/
def register (s : SerialBanks) : BankRegister → Nat
  | .control => s.control
  | .pattern0 => s.pattern0
  | .pattern1 => s.pattern1
  | .program => s.program

/-- Writes to the port, one after the other. -/
def writeAll (s : SerialBanks) (writes : List (UInt16 × UInt8)) : SerialBanks :=
  writes.foldl (fun s w ↦ s.write w.1 w.2) s

variable {s : SerialBanks}

theorem register_commit (s : SerialBanks) (register : BankRegister) (value : Nat) :
    (s.commit register value).register = Function.update s.register register value := by
  funext other
  cases register <;> cases other <;> rfl

theorem write_force {w : UInt16 × UInt8} (hw : isForce w = true) :
    s.write w.1 w.2 =
      { s with control := s.control ||| fixedLastMode, shift := 0, count := 0 } := if_pos hw

theorem register_write_force {w : UInt16 × UInt8} (hw : isForce w = true) :
    (s.write w.1 w.2).register = Effect.force.apply s.register := by
  rw [write_force hw]
  funext other
  cases other <;> rfl

/-! ## The shift register -/

/-- The shift register after a bit has come in. -/
def shifted (shift value : UInt8) : UInt8 := shift >>> 1 ||| (value &&& 1) <<< 4

theorem toNat_shifted {shift : UInt8} (hshift : shift.toNat < 32) (addr : UInt16)
    (value : UInt8) : (shifted shift value).toNat = shift.toNat / 2 + 16 * bitOf (addr, value) := by
  have hbit : bitOf (addr, value) = value.toNat % 2 := by
    rw [bitOf, bit, Nat.toNat_testBit, Nat.pow_zero, Nat.div_one]
  have hin : ((value &&& 1) <<< 4).toNat = bitOf (addr, value) <<< 4 := by
    rw [hbit, UInt8.toNat_shiftLeft, UInt8.toNat_and, UInt8.toNat_one, Nat.and_one_is_mod,
      Nat.shiftLeft_eq, Nat.shiftLeft_eq]
    have hlt := Nat.mod_lt value.toNat Nat.two_pos
    change value.toNat % 2 * 16 % 256 = value.toNat % 2 * 16
    exact Nat.mod_eq_of_lt (by omega)
  have hout : (shift >>> 1).toNat = shift.toNat / 2 := by
    rw [UInt8.toNat_shiftRight, Nat.shiftRight_eq_div_pow]
    rfl
  rw [shifted, UInt8.toNat_or, hin, hout, Nat.or_comm,
    ← Nat.shiftLeft_add_eq_or_of_lt (by omega), Nat.shiftLeft_eq]
  omega

/-- The number in the shift register after some writes. -/
def shiftOf (writes : List (UInt16 × UInt8)) : Nat :=
  writes.foldl (fun n w ↦ n / 2 + 16 * bitOf w) 0

theorem shiftOf_append_singleton (writes : List (UInt16 × UInt8)) (w : UInt16 × UInt8) :
    shiftOf (writes ++ [w]) = shiftOf writes / 2 + 16 * bitOf w := by
  rw [shiftOf, List.foldl_append, List.foldl_cons, List.foldl_nil, ← shiftOf]

theorem bitOf_le (w : UInt16 × UInt8) : bitOf w ≤ 1 := Bool.toNat_le _

theorem shiftOf_lt (writes : List (UInt16 × UInt8)) : shiftOf writes < 32 := by
  induction writes using List.reverseRecOn with
  | nil => exact Nat.zero_lt_succ _
  | append_singleton writes w ih =>
    rw [shiftOf_append_singleton]
    have := bitOf_le w
    omega

/-- After five writes each bit has come to its place. -/
theorem shiftOf_five (w₀ w₁ w₂ w₃ w₄ : UInt16 × UInt8) :
    shiftOf [w₀, w₁, w₂, w₃, w₄] =
      bitOf w₀ + 2 * bitOf w₁ + 4 * bitOf w₂ + 8 * bitOf w₃ + 16 * bitOf w₄ := by
  simp only [shiftOf, List.foldl_cons, List.foldl_nil]
  omega

/-! ## What a board holds -/

/-- The writes of a stretch that make no five yet are in the shift register. -/
structure Holds (s : SerialBanks) (held : List (UInt16 × UInt8)) : Prop where
  bits : ∀ w ∈ held, isForce w = false
  short : held.length < 5
  count : s.count = held.length
  shift : s.shift.toNat = shiftOf held

namespace Holds

variable {held : List (UInt16 × UInt8)} {w : UInt16 × UInt8}

theorem nil (hcount : s.count = 0) (hshift : s.shift = 0) : s.Holds [] :=
  ⟨fun w hw ↦ absurd hw List.not_mem_nil, Nat.zero_lt_succ _, hcount, by rw [hshift]; rfl⟩

theorem toNat_shifted (h : s.Holds held) (w : UInt16 × UInt8) :
    (shifted s.shift w.2).toNat = shiftOf (held ++ [w]) := by
  have hlt := shiftOf_lt held
  rw [← h.shift] at hlt
  rw [shiftOf_append_singleton, ← h.shift]
  exact SerialBanks.toNat_shifted hlt w.1 w.2

/-- A write that does not complete a five is held with the others. -/
theorem write (h : s.Holds held) (hw : isForce w = false) (hshort : held.length + 1 < 5) :
    (s.write w.1 w.2).Holds (held ++ [w]) ∧ (s.write w.1 w.2).register = s.register := by
  have hcount := h.count
  have hwrite : s.write w.1 w.2 =
      { s with shift := shifted s.shift w.2, count := s.count + 1 } := by
    rw [SerialBanks.write, if_neg (by rw [← isForce, hw]; exact Bool.false_ne_true)]
    exact if_neg (by rw [groupLength]; omega)
  rw [hwrite]
  refine ⟨⟨?_, ?_, ?_, h.toNat_shifted w⟩, rfl⟩
  · exact List.forall_mem_append.mpr ⟨h.bits, List.forall_mem_singleton.mpr hw⟩
  · rw [List.length_append]
    exact hshort
  · rw [List.length_append, ← hcount]
    rfl

/-- The fifth write loads the register that it names. -/
theorem write_fifth (h : s.Holds held) (hw : isForce w = false) (hfull : held.length + 1 = 5) :
    (s.write w.1 w.2).Holds [] ∧
      (s.write w.1 w.2).register =
        Function.update s.register (registerNamed w.1) (shiftOf (held ++ [w])) := by
  have hcount := h.count
  have hvalue : (shifted s.shift w.2 &&& 0x1f).toNat = shiftOf (held ++ [w]) := by
    rw [UInt8.toNat_and, h.toNat_shifted]
    exact (Nat.and_two_pow_sub_one_eq_mod _ 5).trans (Nat.mod_eq_of_lt (shiftOf_lt _))
  have hwrite : s.write w.1 w.2 =
      { s with shift := 0, count := 0 }.commit (registerNamed w.1) (shiftOf (held ++ [w])) := by
    rw [← ofAddress_eq, SerialBanks.write,
      if_neg (by rw [← isForce, hw]; exact Bool.false_ne_true), ← hvalue]
    exact if_pos (by rw [groupLength]; omega)
  rw [hwrite, register_commit]
  refine ⟨nil ?_ ?_, rfl⟩ <;> cases registerNamed w.1 <;> rfl

/-- What a board holds is read together with the writes to come. -/
theorem register_writeAll (h : s.Holds held) (writes : List (UInt16 × UInt8)) :
    (s.writeAll writes).register =
      (portEffects (held ++ writes)).foldl Effect.apply s.register := by
  induction writes generalizing s held with
  | nil => rw [List.append_nil, portEffects_of_short h.bits h.short]; rfl
  | cons w rest ih =>
    change ((s.write w.1 w.2).writeAll rest).register = _
    cases hw : isForce w with
    | true =>
      have hnil : (s.write w.1 w.2).Holds [] := by
        rw [write_force hw]
        exact nil rfl rfl
      rw [ih hnil, register_write_force hw, portEffects_force h.bits h.short hw]
      rfl
    | false =>
      by_cases hshort : held.length + 1 < 5
      · obtain ⟨hnext, hregister⟩ := h.write hw hshort
        rw [ih hnext, hregister, List.append_assoc]
        rfl
      · have hfull : held.length + 1 = 5 := by have := h.short; omega
        obtain ⟨hnext, hregister⟩ := h.write_fifth hw hfull
        obtain ⟨w₀, w₁, w₂, w₃, rfl⟩ : ∃ w₀ w₁ w₂ w₃, held = [w₀, w₁, w₂, w₃] := by
          match held, hfull with
          | [w₀, w₁, w₂, w₃], _ => exact ⟨w₀, w₁, w₂, w₃, rfl⟩
        have hbits : ∀ v ∈ [w₀, w₁, w₂, w₃] ++ [w], isForce v = false :=
          List.forall_mem_append.mpr ⟨h.bits, List.forall_mem_singleton.mpr hw⟩
        rw [ih hnext, hregister]
        change _ = (portEffects (w₀ :: w₁ :: w₂ :: w₃ :: w :: rest)).foldl Effect.apply s.register
        rw [portEffects_five hbits, ← shiftOf_five]
        rfl

end Holds

/-! ## The ranges of the registers -/

/-- Every register has five bits, a group in progress is no five yet, and the arrangement is the one
that the control register names. -/
structure IsSound (s : SerialBanks) : Prop where
  register_lt : ∀ r, s.register r < 32
  shift_lt : s.shift.toNat < 32
  count_lt : s.count < 5
  arrangement : s.arrangement = arrangementOf s.control

namespace IsSound

theorem powerOn : IsSound {} where
  register_lt := by rintro (_ | _ | _ | _) <;> decide
  shift_lt := by decide
  count_lt := by decide
  arrangement := rfl

/-- Forcing the program mode leaves the two bits that name the arrangement. -/
theorem arrangementOf_or (control : Nat) :
    arrangementOf (control ||| fixedLastMode) = arrangementOf control := by
  have hbits : (control ||| fixedLastMode) % 4 = control % 4 := by
    rw [show (4 : Nat) = 2 ^ 2 from rfl, Nat.or_mod_two_pow]
    exact Nat.or_zero _
  rw [arrangementOf, hbits, ← arrangementOf]

theorem force (h : s.IsSound) :
    IsSound { s with control := s.control ||| fixedLastMode, shift := 0, count := 0 } where
  register_lt := by
    rintro (_ | _ | _ | _)
    · exact Nat.or_lt_two_pow (n := 5) (h.register_lt .control) (by decide)
    · exact h.register_lt .pattern0
    · exact h.register_lt .pattern1
    · exact h.register_lt .program
  shift_lt := Nat.zero_lt_succ _
  count_lt := Nat.zero_lt_succ _
  arrangement := h.arrangement.trans (arrangementOf_or s.control).symm

theorem emptied (h : s.IsSound) : IsSound { s with shift := 0, count := 0 } :=
  ⟨h.register_lt, Nat.zero_lt_succ _, Nat.zero_lt_succ _, h.arrangement⟩

theorem commit (h : s.IsSound) (register : BankRegister) {value : Nat} (hvalue : value < 32) :
    (s.commit register value).IsSound where
  register_lt := by
    intro r
    rw [register_commit]
    by_cases hr : r = register
    · rw [hr, Function.update_self]
      exact hvalue
    · rw [Function.update_of_ne hr]
      exact h.register_lt r
  shift_lt := by cases register <;> exact h.shift_lt
  count_lt := by cases register <;> exact h.count_lt
  arrangement := by
    cases register with
    | control => rfl
    | pattern0 | pattern1 | program => exact h.arrangement

theorem write (h : s.IsSound) (w : UInt16 × UInt8) : (s.write w.1 w.2).IsSound := by
  cases hw : isForce w with
  | true => rw [write_force hw]; exact h.force
  | false =>
    have hshift : (shifted s.shift w.2).toNat < 32 := by
      have hlt := h.shift_lt
      have hbit := bitOf_le w
      rw [toNat_shifted hlt w.1 w.2]
      change _ + 16 * bitOf w < 32
      omega
    rw [SerialBanks.write, if_neg (by rw [← isForce, hw]; exact Bool.false_ne_true)]
    dsimp only
    split
    · refine h.emptied.commit _ ?_
      rw [UInt8.toNat_and]
      exact Nat.and_lt_two_pow (n := 5) _ (by decide)
    · next hcount =>
      rw [groupLength] at hcount
      have hlt := h.count_lt
      exact ⟨h.register_lt, hshift, by dsimp only; omega, h.arrangement⟩

theorem writeAll (h : s.IsSound) (writes : List (UInt16 × UInt8)) :
    (s.writeAll writes).IsSound := by
  induction writes generalizing s with
  | nil => exact h
  | cons w rest ih => exact ih (h.write w)

end IsSound

end SerialBanks

/-! ## The board -/

namespace Board

/-- Writes of the processor, one after the other. -/
def writeAll (b : Board) (writes : List (UInt16 × UInt8)) : Board :=
  writes.foldl (fun b w ↦ b.writeCpu w.1 w.2) b

/-- Only the writes to the port reach the circuit. -/
theorem circuit_writeCpu (b : Board) (w : UInt16 × UInt8) :
    (b.writeCpu w.1 w.2).circuit =
      if SerialBanks.isPort w then b.circuit.write w.1 w.2 else b.circuit := by
  have hport : SerialBanks.isPort w = true ↔ ¬w.1 < 0x8000 := by
    rw [SerialBanks.isPort, decide_eq_true_iff, UInt16.not_lt]
  rw [writeCpu]
  by_cases hexpansion : w.1 < 0x6000
  · rw [if_pos hexpansion,
      if_neg fun h ↦ hport.mp h (UInt16.lt_trans hexpansion (by decide))]
  · rw [if_neg hexpansion]
    by_cases hram : w.1 < 0x8000
    · rw [if_pos hram, if_neg fun h ↦ hport.mp h hram]
      rfl
    · rw [if_neg hram, if_pos (hport.mpr hram)]

theorem circuit_writeAll {b : Board} {s : SerialBanks} (h : b.circuit = .mmc1 s)
    (writes : List (UInt16 × UInt8)) :
    (b.writeAll writes).circuit = .mmc1 (s.writeAll (writes.filter SerialBanks.isPort)) := by
  induction writes generalizing b s with
  | nil => exact h
  | cons w rest ih =>
    have hnext := b.circuit_writeCpu w
    rw [h] at hnext
    change ((b.writeCpu w.1 w.2).writeAll rest).circuit = _
    cases hport : SerialBanks.isPort w with
    | true =>
      rw [hport, if_pos rfl] at hnext
      rw [ih hnext, List.filter_cons_of_pos hport]
      rfl
    | false =>
      have hno : ¬SerialBanks.isPort w = true := by rw [hport]; exact Bool.false_ne_true
      rw [if_neg hno] at hnext
      rw [ih hnext, List.filter_cons_of_neg hno]

/-- After any history of writes a fresh board holds in its bank registers what the history says,
read as a whole. The registers keep to five bits, the group in progress to less than five writes,
and the nametables are arranged as the control register names. -/
theorem register_eq_foldl_effects (program patterns : Array UInt8) (wiring : Mirroring)
    (withWorkRam : Bool) (writes : List (UInt16 × UInt8)) :
    ∃ s : SerialBanks,
      ((assemble .mmc1 program patterns wiring withWorkRam).writeAll writes).circuit = .mmc1 s ∧
        s.register =
          (SerialBanks.effects writes).foldl SerialBanks.Effect.apply
            (fun r ↦ if r = .control then 0b01100 else 0) ∧
        (∀ r, s.register r < 32) ∧ s.count < 5 ∧
        ((assemble .mmc1 program patterns wiring withWorkRam).writeAll writes).mirroring =
          SerialBanks.arrangementNamed s.control := by
  have hcircuit := circuit_writeAll (b := assemble .mmc1 program patterns wiring withWorkRam)
    (s := {}) rfl writes
  have hsound := SerialBanks.IsSound.powerOn.writeAll (writes.filter SerialBanks.isPort)
  have hholds : SerialBanks.Holds {} [] := .nil rfl rfl
  refine ⟨_, hcircuit, ?_, hsound.register_lt, hsound.count_lt, ?_⟩
  · rw [hholds.register_writeAll, List.nil_append, ← SerialBanks.effects]
    congr 1
    funext r
    cases r <;> rfl
  · rw [mirroring, hcircuit, ← SerialBanks.arrangementOf_eq]
    exact hsound.arrangement

end Board

end Famicom
