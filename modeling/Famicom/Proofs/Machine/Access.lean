import Famicom.Machine.Run
import Mathlib.Logic.Relation

/-!
# What the processor does to the bus

Whatever the processor does is a sequence of reads and writes on the bus and of changes to its own
registers. Two relations say so: `Bus.ReadsTo` for a sequence of reads alone, and `Bus.AccessesTo`
for one that may also write. An invariant of the bus that every read and every write keeps is then
kept by every operation of the machine, and nothing here has to be unfolded again for it.

`Machine.Works` is the frame that goes with it: an operation that works through a relation `R` on
the bus leaves the phase, the transfer and the cycle count of the processor alone.

The main statements are that resolving an operand only reads and moves nothing but the program
counter (`reads_resolve`, `registers_resolve`), that an instruction's effect is a sequence of
accesses (`accesses_execute`), and that entering an interrupt touches memory and the cartridge
only, so that it leaves the chips and the interrupt lines as they are.
-/

namespace Famicom

namespace Bus

/-! ## Sequences of reads -/

/-- The second bus is left by some reads from the first. -/
def ReadsTo (b c : Bus) : Prop := ∃ addrs, c = (b.readAll addrs).2

theorem readAllFrom_snd (done : List UInt8) (addrs : List UInt16) (b : Bus) :
    (readAllFrom done addrs b).2 = addrs.foldl (fun b addr ↦ (b.read addr).2) b := by
  induction addrs generalizing done b with
  | nil => rfl
  | cons addr rest ih => rw [readAllFrom, ih, List.foldl_cons]

theorem readAll_snd (addrs : List UInt16) (b : Bus) :
    (b.readAll addrs).2 = addrs.foldl (fun b addr ↦ (b.read addr).2) b :=
  readAllFrom_snd [] addrs b

namespace ReadsTo

theorem refl (b : Bus) : ReadsTo b b := ⟨[], rfl⟩

theorem single (b : Bus) (addr : UInt16) : ReadsTo b (b.read addr).2 := ⟨[addr], rfl⟩

theorem trans {b c d : Bus} (hbc : ReadsTo b c) (hcd : ReadsTo c d) : ReadsTo b d := by
  obtain ⟨addrs, rfl⟩ := hbc
  obtain ⟨more, rfl⟩ := hcd
  refine ⟨addrs ++ more, ?_⟩
  simp only [readAll_snd, List.foldl_append]

/-- What every read keeps, a sequence of reads keeps. -/
theorem preserves {P : Bus → Prop} (hread : ∀ b addr, P b → P (b.read addr).2) {b c : Bus}
    (h : ReadsTo b c) (hb : P b) : P c := by
  obtain ⟨addrs, rfl⟩ := h
  rw [readAll_snd]
  induction addrs generalizing b with
  | nil => exact hb
  | cons addr rest ih => exact ih (hread b addr hb)

theorem word (b : Bus) (addr : UInt16) : ReadsTo b (b.readWord addr).2 :=
  (single b addr).trans (single _ (addr + 1))

theorem wordInPage (b : Bus) (addr : UInt16) : ReadsTo b (b.readWordInPage addr).2 :=
  (single b addr).trans (single _ (nextInPage addr))

end ReadsTo

/-! ## Sequences of accesses -/

/-- One access: a read or a write. -/
inductive Access : Bus → Bus → Prop where
  | read (b : Bus) (addr : UInt16) : Access b (b.read addr).2
  | write (b : Bus) (addr : UInt16) (value : UInt8) : Access b (b.write addr value)

/-- The second bus is left by some accesses from the first. -/
def AccessesTo : Bus → Bus → Prop := Relation.ReflTransGen Access

namespace AccessesTo

theorem refl (b : Bus) : AccessesTo b b := Relation.ReflTransGen.refl

theorem trans {b c d : Bus} (hbc : AccessesTo b c) (hcd : AccessesTo c d) : AccessesTo b d :=
  Relation.ReflTransGen.trans hbc hcd

theorem read (b : Bus) (addr : UInt16) : AccessesTo b (b.read addr).2 :=
  Relation.ReflTransGen.single (.read b addr)

theorem write (b : Bus) (addr : UInt16) (value : UInt8) : AccessesTo b (b.write addr value) :=
  Relation.ReflTransGen.single (.write b addr value)

/-- What every read and every write keeps, a sequence of accesses keeps. -/
theorem preserves {P : Bus → Prop} (hread : ∀ b addr, P b → P (b.read addr).2)
    (hwrite : ∀ b addr value, P b → P (b.write addr value)) {b c : Bus} (h : AccessesTo b c)
    (hb : P b) : P c := by
  induction h with
  | refl => exact hb
  | tail _ hstep ih =>
    cases hstep with
    | read addr => exact hread _ addr ih
    | write addr value => exact hwrite _ addr value ih

end AccessesTo

theorem ReadsTo.accessesTo {b c : Bus} (h : ReadsTo b c) : AccessesTo b c :=
  h.preserves (fun _ addr h ↦ h.trans (.read _ addr)) (.refl b)

end Bus

namespace Machine

/-! ## Frames -/

/-- The second machine is left by work on the registers and, through `R`, on the bus. -/
structure Works (R : Bus → Bus → Prop) (m n : Machine) : Prop where
  phase : n.cpu.phase = m.cpu.phase
  transfer : n.cpu.transfer = m.cpu.transfer
  cycles : n.cpu.cycles = m.cpu.cycles
  bus : R m.bus n.bus

namespace Works

variable {R S : Bus → Bus → Prop} {m n o : Machine}

theorem trans (htrans : ∀ {b c d}, R b c → R c d → R b d) (hmn : Works R m n)
    (hno : Works R n o) : Works R m o where
  phase := hno.phase.trans hmn.phase
  transfer := hno.transfer.trans hmn.transfer
  cycles := hno.cycles.trans hmn.cycles
  bus := htrans hmn.bus hno.bus

theorem mono (h : ∀ {b c}, R b c → S b c) (hmn : Works R m n) : Works S m n :=
  { hmn with bus := h hmn.bus }

end Works

/-- Work that only reads. -/
abbrev Reads : Machine → Machine → Prop := Works Bus.ReadsTo

/-- Work that reads and writes. -/
abbrev Accesses : Machine → Machine → Prop := Works Bus.AccessesTo

theorem Reads.trans {m n o : Machine} (hmn : Reads m n) (hno : Reads n o) : Reads m o :=
  Works.trans Bus.ReadsTo.trans hmn hno

theorem Accesses.trans {m n o : Machine} (hmn : Accesses m n) (hno : Accesses n o) :
    Accesses m o :=
  Works.trans Bus.AccessesTo.trans hmn hno

theorem Reads.accesses {m n : Machine} (h : Reads m n) : Accesses m n :=
  h.mono Bus.ReadsTo.accessesTo

variable (m : Machine)

theorem reads_refl : Reads m m := ⟨rfl, rfl, rfl, .refl _⟩

theorem reads_modifyRegisters (change : Registers → Registers) :
    Reads m (m.modifyRegisters change) := ⟨rfl, rfl, rfl, .refl _⟩

theorem reads_jump (pc : UInt16) : Reads m (m.jump pc) := m.reads_modifyRegisters _

theorem reads_read (addr : UInt16) : Reads m (m.read addr).2 := ⟨rfl, rfl, rfl, .single _ addr⟩

theorem reads_readWord (addr : UInt16) : Reads m (m.readWord addr).2 :=
  ⟨rfl, rfl, rfl, .word _ addr⟩

theorem reads_readWordInPage (addr : UInt16) : Reads m (m.readWordInPage addr).2 :=
  ⟨rfl, rfl, rfl, .wordInPage _ addr⟩

theorem reads_fetch : Reads m m.fetch.2 := ⟨rfl, rfl, rfl, .single _ _⟩

theorem reads_fetchWord : Reads m m.fetchWord.2 := m.reads_fetch.trans (reads_fetch _)

theorem reads_pull : Reads m m.pull.2 := ⟨rfl, rfl, rfl, .single _ _⟩

theorem reads_pullWord : Reads m m.pullWord.2 := m.reads_pull.trans (reads_pull _)

theorem accesses_write (addr : UInt16) (value : UInt8) : Accesses m (m.write addr value) :=
  ⟨rfl, rfl, rfl, .write _ addr value⟩

theorem accesses_push (value : UInt8) : Accesses m (m.push value) :=
  ⟨rfl, rfl, rfl, .write _ _ value⟩

theorem accesses_pushWord (value : UInt16) : Accesses m (m.pushWord value) :=
  (m.accesses_push _).trans (accesses_push _ _)

/-! ## Changing the phase -/

@[simp] theorem phase_setPhase (phase : Phase) : (m.setPhase phase).cpu.phase = phase := rfl

@[simp] theorem registers_setPhase (phase : Phase) :
    (m.setPhase phase).registers = m.registers := rfl

@[simp] theorem transfer_setPhase (phase : Phase) :
    (m.setPhase phase).cpu.transfer = m.cpu.transfer := rfl

@[simp] theorem cycles_setPhase (phase : Phase) :
    (m.setPhase phase).cpu.cycles = m.cpu.cycles := rfl

@[simp] theorem bus_setPhase (phase : Phase) : (m.setPhase phase).bus = m.bus := rfl

/-! ## Entering an interrupt -/

/-- The machine with the latch of an interrupt taken back. -/
def acknowledging (interrupt : Interrupt) : Machine :=
  ⟨m.cpu, { m.bus with lines := m.bus.lines.acknowledge interrupt }⟩

theorem enter_eq (interrupt : Interrupt) :
    m.enter interrupt =
      ((m.acknowledging interrupt).enterInterrupt (Cpu.vector interrupt) false).setPhase
        (.enter Cpu.entryCycles) := rfl

/-- The machine with program counter and status on the stack and interrupts disabled, about to read
the vector. -/
def suspended (breakMark : Bool) : Machine :=
  ((m.pushWord m.registers.pc).push (m.registers.p.pushed breakMark)).modifyRegisters
    fun r ↦ { r with p := { r.p with interruptDisable := true } }

theorem enterInterrupt_eq (vector : UInt16) (breakMark : Bool) :
    m.enterInterrupt vector breakMark =
      ((m.suspended breakMark).readWord vector).2.jump
        ((m.suspended breakMark).readWord vector).1 := rfl

theorem accesses_suspended (breakMark : Bool) : Accesses m (m.suspended breakMark) :=
  ((m.accesses_pushWord _).trans (accesses_push _ _)).trans
    (reads_modifyRegisters _ _).accesses

theorem accesses_enterInterrupt (vector : UInt16) (breakMark : Bool) :
    Accesses m (m.enterInterrupt vector breakMark) := by
  rw [enterInterrupt_eq]
  exact (m.accesses_suspended _).trans ((reads_readWord _ _).trans (reads_jump _ _)).accesses

/-! ## Resolving an operand -/

theorem reads_resolve (mode : Mode) : Reads m (m.resolve mode).2 := by
  cases mode with
  | implicit | accumulator => exact m.reads_refl
  | immediate => exact m.reads_jump _
  | zeroPage | zeroPageX | zeroPageY | relative => exact m.reads_fetch
  | absolute | absoluteX | absoluteY => exact m.reads_fetchWord
  | indirect => exact m.reads_fetchWord.trans (reads_readWordInPage _ _)
  | indirectX | indirectY => exact m.reads_fetch.trans (reads_readWordInPage _ _)

/-- Resolving an operand moves the program counter past the operand bytes and changes no other
register. -/
theorem registers_resolve (mode : Mode) :
    (m.resolve mode).2.registers =
      { m.registers with pc := m.registers.pc + UInt16.ofNat mode.operandLength } := by
  have htwo (pc : UInt16) : pc + 1 + 1 = pc + 2 := by rw [UInt16.add_assoc]; rfl
  cases mode with
  | implicit | accumulator => simp [resolve, Mode.operandLength]
  | immediate | zeroPage | zeroPageX | zeroPageY | relative | indirectX | indirectY => rfl
  | absolute | absoluteX | absoluteY | indirect =>
    change { m.registers with pc := m.registers.pc + 1 + 1 } = _
    rw [htwo]
    rfl

/-! ## The effect of an instruction -/

theorem reads_operand (i : Instruction) : Reads m (m.operand i).2 := by
  unfold operand
  split
  · exact m.reads_refl
  · exact m.reads_read _

theorem registers_operand (i : Instruction) : (m.operand i).2.registers = m.registers := by
  unfold operand
  split <;> rfl

theorem accesses_putBack (i : Instruction) (value : UInt8) : Accesses m (m.putBack i value) := by
  unfold putBack
  split
  · exact (m.reads_modifyRegisters _).accesses
  · exact m.accesses_write _ _

theorem reads_pullStatus : Reads m m.pullStatus := ⟨rfl, rfl, rfl, .single _ _⟩

theorem accesses_execute (i : Instruction) : Accesses m (m.execute i) := by
  unfold execute
  cases i.operation with
  | load op => exact ((m.reads_operand i).trans (reads_modifyRegisters _ _)).accesses
  | store op => exact m.accesses_write _ _
  | storeHigh op => exact (m.reads_modifyRegisters _).accesses.trans (accesses_write _ _ _)
  | modify op =>
    exact ((m.reads_operand i).trans (reads_modifyRegisters _ _)).accesses.trans
      (accesses_putBack _ _ _)
  | register op => exact (m.reads_modifyRegisters _).accesses
  | branch op =>
    dsimp only
    split
    · exact (m.reads_jump _).accesses
    · exact m.reads_refl.accesses
  | nop =>
    dsimp only
    split
    · exact m.reads_refl.accesses
    · exact m.reads_refl.accesses
    · exact (m.reads_read _).accesses
  | pha => exact m.accesses_push _
  | php => exact m.accesses_push _
  | pla => exact (m.reads_pull.trans (reads_modifyRegisters _ _)).accesses
  | plp => exact m.reads_pullStatus.accesses
  | jmp => exact (m.reads_jump _).accesses
  | jsr => exact (m.accesses_pushWord _).trans (reads_jump _ _).accesses
  | rts => exact (m.reads_pullWord.trans (reads_jump _ _)).accesses
  | rti => exact (m.reads_pullStatus.trans ((reads_pullWord _).trans (reads_jump _ _))).accesses
  | brk => exact (m.reads_jump _).accesses.trans (accesses_enterInterrupt _ _ _)
  | jam => exact m.reads_refl.accesses

end Machine

end Famicom
