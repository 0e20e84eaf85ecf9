import Famicom.Proofs.Console.Command

/-!
# Power cycles

A cartridge is put in under a power cycle, which five resets carry out in a fixed order. Together
they forget everything that has been before, but for what has no reset line: the colours, sprite
memory, the two pictures and the buttons held; and the settings of speed and sample rate, which are
not part of the machine. `Console.bare` takes these away.

What is left depends on the standard and the cartridge alone. It is a console that has just been
built with the cartridge in it (`Console.built`), at the address in the vector of the cartridge
(`IsWhole.bare_replaceSlot`).
-/

namespace Famicom

/-! ## What survives -/

/-- The controller without what it holds and what of that has been copied and read. -/
def Pad.bare (p : Pad) : Pad := { strobe := p.strobe }

/-- The chip without the colours, sprite memory and the pictures. -/
def Ppu.bare (p : Ppu) : Ppu :=
  { p with
    palette := .blank
    sprites := { p.sprites with oam := SpriteUnit.blank.oam }
    frame := .blank }

/-- The chip without the sample rate, and whether that has been too high. -/
def Apu.bare (a : Apu) : Apu := { a with pacer := { phase := a.pacer.phase } }

/-- The bus without what survives in its parts. -/
def Bus.bare (b : Bus) : Bus :=
  { b with ppu := b.ppu.bare, apu := b.apu.bare, pads := b.pads.map Pad.bare }

namespace Console

/-- The console without what a power cycle does not take back. -/
def bare (c : Console) : Console :=
  { c with machine := ⟨c.machine.cpu, c.machine.bus.bare⟩, speed := 1.0 }

/-- A console that is about to start from `pc`, with this in its slot and nothing done to it. -/
def built (tv : Television) (slot : Slot) (pc : UInt16) : Console where
  television := tv
  machine := ⟨{ registers := { pc }, phase := .stall Cpu.entryCycles }, .powerOn tv slot⟩
  clock := { ratio := tv.cyclesPerDot }

end Console

/-! ## The parts -/

theorem Pad.bare_writeStrobe_zero (p : Pad) : (p.writeStrobe 0).bare = {} := rfl

theorem Ppu.bare_reset (p : Ppu) : p.reset.bare = .powerOn p.beam.television := rfl

theorem Apu.bare_reset {a : Apu} (h : a.samples.capacity = SampleQueue.defaultCapacity) :
    a.reset.bare = .powerOn a.television := by
  have hclear : a.samples.clear = .ofCapacity SampleQueue.defaultCapacity := by
    rw [SampleQueue.clear, SampleQueue.ofCapacity]
    exact congrArg (fun capacity ↦ ({ capacity } : SampleQueue Sample)) h
  rw [reset, hclear]
  rfl

/-- A power cycle leaves nothing of the bus but what is in the slot. -/
theorem Bus.IsWhole.bare_restarted {b : Bus} (h : b.IsWhole) :
    (b.restarted true).bare = .powerOn b.ppu.beam.television b.slot := by
  have hpads : (b.pads.map (·.writeStrobe 0)).map Pad.bare = Vector.replicate 2 {} := by
    ext i hi
    rw [Vector.getElem_map, Vector.getElem_map, Vector.getElem_replicate,
      Pad.bare_writeStrobe_zero]
  have hapu : b.apu.reset.bare = .powerOn b.ppu.beam.television := by
    rw [Apu.bare_reset h.capacity, h.television]
  change Bus.mk (Vector.replicate _ 0) (Vector.replicate _ 0) b.ppu.reset.bare b.apu.reset.bare
    b.slot ((b.pads.map (·.writeStrobe 0)).map Pad.bare) {} none b.fault = _
  rw [Ppu.bare_reset, hapu, hpads, h.fault]
  rfl

/-! ## What is refused -/

theorem BoardKind.ofMapper?_eq_none_iff {number : Nat} :
    ofMapper? number = none ↔ number ∉ [0, 1, 2, 3, 7] := by
  unfold ofMapper?
  split
  case h_6 h0 h1 h2 h3 h7 =>
    simp only [List.mem_cons, List.not_mem_nil, or_false, true_iff, not_or]
    exact ⟨h0, h1, h2, h3, h7⟩
  all_goals simp

/-- An image is refused for its form, or for a board that there is none of. -/
theorem Slot.ofBytes_eq_error {bytes : Array UInt8} {e : CartridgeError} :
    ofBytes bytes = .error e ↔
      Image.parse bytes = .error e ∨
        ∃ image, Image.parse bytes = .ok image ∧ image.mapper ∉ [0, 1, 2, 3, 7] ∧
          e = .unsupportedMapper image.mapper := by
  rw [ofBytes]
  cases hparse : Image.parse bytes with
  | error refusal =>
    change Except.error refusal = .error e ↔ _
    simp only [Except.error.injEq, reduceCtorEq, false_and, exists_false, or_false]
  | ok image =>
    change (Board.ofImage image).bind (fun board ↦ Except.ok (holding board)) = .error e ↔ _
    simp only [← BoardKind.ofMapper?_eq_none_iff, Except.ok.injEq, reduceCtorEq, false_or,
      exists_eq_left']
    rw [Board.ofImage]
    cases hkind : BoardKind.ofMapper? image.mapper with
    | none =>
      change Except.error _ = Except.error e ↔ _
      rw [Except.error.injEq, eq_comm]
      exact (and_iff_right rfl).symm
    | some kind =>
      change Except.ok _ = Except.error e ↔ _
      simp only [reduceCtorEq, false_and]

namespace Console

variable {c : Console} {bytes : Array UInt8}

theorem insert_eq_error {e : CartridgeError} :
    c.insert bytes = .error e ↔ Slot.ofBytes bytes = .error e := by
  rw [insert]
  cases Slot.ofBytes bytes with
  | error refusal => rw [Except.map, Except.error.injEq, Except.error.injEq]
  | ok slot => simp only [Except.map, reduceCtorEq]

theorem insert_eq_ok {d : Console} :
    c.insert bytes = .ok d ↔ ∃ slot, Slot.ofBytes bytes = .ok slot ∧ d = c.replaceSlot slot := by
  rw [insert]
  cases Slot.ofBytes bytes with
  | error refusal => simp only [Except.map, reduceCtorEq, false_and, exists_false]
  | ok slot => simp only [Except.map, Except.ok.injEq, exists_eq_left', eq_comm]

/-! ## What is forgotten -/

/-- Under a power cycle all that is left of a console with something in its slot is a console that
has been built with it. -/
theorem bare_replaceSlot {tv : Television} {dots : Nat} (h : c.IsWhole tv dots) {slot : Slot}
    (hslot : slot.IsSafe) :
    ∃ low high, slot.readCpu? Cpu.resetVector = some low ∧
      slot.readCpu? (Cpu.resetVector + 1) = some high ∧
      (c.replaceSlot slot).bare = built tv slot (wordOf low high) := by
  let d : Console := c.modifyBus fun b ↦ { b with slot }
  have hbus : d.machine.bus.IsWhole := h.bus.withSlot hslot
  obtain ⟨low, high, hlow, hhigh, hreset⟩ := reset_eq_restarted (c := d) hbus.slot true
  refine ⟨low, high, hlow, hhigh, ?_⟩
  have hclock : c.clock.reset = { ratio := tv.cyclesPerDot } := by
    rw [RatioClock.reset, h.paced.ratio, h.clock, h.television]
  have hbeam : c.machine.bus.ppu.beam.television = tv := h.paced.beam.trans h.television
  have hbare : (d.machine.bus.restarted true).bare = .powerOn tv slot := by
    rw [hbus.bare_restarted]
    exact congrArg (Bus.powerOn · slot) hbeam
  rw [replaceSlot, hreset, bare, hbare]
  change Console.mk c.television _ c.clock.reset 1.0 = _
  rw [h.television, hclock]
  rfl

/-- An image is refused for its form, or because there is no board with its number, and then the
console is as it was. An image that is accepted goes into the slot and starts at the address in its
vector; and whatever has been done with another console of the same standard, inserting the same
image leaves it in the same state, except for what no power cycle takes back. -/
theorem insert_forgets (tv : Television) (history : List Command) (bytes : Array UInt8) :
    let c := run history (powerOn tv)
    (∀ e, c.insert bytes = .error e ↔
        Image.parse bytes = .error e ∨
          ∃ image, Image.parse bytes = .ok image ∧ image.mapper ∉ [0, 1, 2, 3, 7] ∧
            e = .unsupportedMapper image.mapper) ∧
      (∀ e, c.insert bytes = .error e → (Command.insert bytes).perform c = c) ∧
      ∀ d, c.insert bytes = .ok d →
        (Command.insert bytes).perform c = d ∧ Slot.ofBytes bytes = .ok d.machine.bus.slot ∧
        (∃ low high, d.machine.bus.slot.readCpu? 0xfffc = some low ∧
          d.machine.bus.slot.readCpu? 0xfffd = some high ∧
          d.cpu.registers.pc = wordOf low high) ∧
        ∀ others, ∃ e, (run others (powerOn tv)).insert bytes = .ok e ∧ e.bare = d.bare := by
  intro c
  obtain ⟨dots, whole⟩ := exists_isWhole_run tv history
  refine ⟨fun e ↦ insert_eq_error.trans Slot.ofBytes_eq_error, fun e he ↦ ?_, fun d hd ↦ ?_⟩
  · exact perform_insert_of_error (insert_eq_error.mp he)
  · obtain ⟨slot, hslot, rfl⟩ := insert_eq_ok.mp hd
    have hsafe := Slot.isSafe_ofBytes hslot
    obtain ⟨low, high, hlow, hhigh, hbare⟩ := bare_replaceSlot whole hsafe
    have hcontent : (c.replaceSlot slot).machine.bus.slot = slot :=
      congrArg (fun d ↦ d.machine.bus.slot) hbare
    refine ⟨perform_insert_of_ok hslot, hcontent.symm ▸ hslot, ?_, fun others ↦ ?_⟩
    · rw [hcontent]
      exact ⟨low, high, hlow, hhigh, congrArg (fun d ↦ d.cpu.registers.pc) hbare⟩
    · obtain ⟨dots', whole'⟩ := exists_isWhole_run tv others
      obtain ⟨low', high', hlow', hhigh', hbare'⟩ := bare_replaceSlot whole' hsafe
      refine ⟨_, insert_eq_ok.mpr ⟨slot, hslot, rfl⟩, ?_⟩
      rw [hbare, hbare', Option.some.inj (hlow'.symm.trans hlow),
        Option.some.inj (hhigh'.symm.trans hhigh)]

end Console

end Famicom
