import Famicom.Machine.Cycle

/-!
# The instruction trace

A line for each instruction that is fetched: its address, its bytes, its text, and the registers
before it. The operand bytes of the line are read from the bus like any others, before the
instruction reads them itself, so where the program runs from registers that change when they are
read, tracing it changes what it does.
-/

namespace Famicom

/-- Pads a text with blanks on the right. -/
def padRight (text : String) (width : Nat) : String :=
  text ++ String.ofList (List.replicate (width - text.length) ' ')

/-- The text of an operand, from the address of the instruction and its operand bytes. -/
def Mode.operandText (mode : Mode) (pc : UInt16) (low high : UInt8) : String :=
  let byte := "$" ++ hexByte low
  let word := "$" ++ hexWord (wordOf low high)
  match mode with
  | implicit => ""
  | accumulator => "A"
  | immediate => "#" ++ byte
  | zeroPage => byte
  | zeroPageX => byte ++ ",X"
  | zeroPageY => byte ++ ",Y"
  | relative => "$" ++ hexWord (pc + 2 + signExtend low)
  | absolute => word
  | absoluteX => word ++ ",X"
  | absoluteY => word ++ ",Y"
  | indirect => "(" ++ word ++ ")"
  | indirectX => "(" ++ byte ++ ",X)"
  | indirectY => "(" ++ byte ++ "),Y"

/-- The bytes of an instruction in hexadecimal. -/
def Mode.bytesText (mode : Mode) (opcode low high : UInt8) : String :=
  match mode.operandLength with
  | 0 => hexByte opcode
  | 1 => s!"{hexByte opcode} {hexByte low}"
  | _ => s!"{hexByte opcode} {hexByte low} {hexByte high}"

/-- The registers and the cycle count as the trace shows them. -/
def Registers.text (r : Registers) (cycles : Nat) : String :=
  let a := hexByte r.a
  let x := hexByte r.x
  let y := hexByte r.y
  let p := hexByte r.p.toByte
  let sp := hexByte r.sp
  s!"A:{a} X:{x} Y:{y} P:{p} SP:{sp} CYC:{cycles}"

/-- A line of the trace. An undocumented opcode is marked with a star. -/
def traceText (opcode : UInt8) (pc : UInt16) (low high : UInt8) (r : Registers) (cycles : Nat) :
    String :=
  let mode := Mode.ofOpcode opcode
  let bytes := padRight (mode.bytesText opcode low high) 8
  let marker := if Opcode.isDocumented opcode then " " else "*"
  let name := (Opcode.operation opcode).name
  let operand := padRight (mode.operandText pc low high) 27
  s!"{hexWord pc}  {bytes} {marker}{name} {operand} {r.text cycles}"

namespace Machine

/-- Reads an operand byte for the trace, if the instruction has so many. -/
def peekOperand (m : Machine) (opcode : UInt8) (pc : UInt16) (place : Nat) : UInt8 × Machine :=
  if place ≤ (Mode.ofOpcode opcode).operandLength then m.read (pc + UInt16.ofNat place) else (0, m)

/-- The line for an opcode fetched from `pc`. -/
def trace (m : Machine) (opcode : UInt8) (pc : UInt16) : String × Machine :=
  let (low, m) := m.peekOperand opcode pc 1
  let (high, m) := m.peekOperand opcode pc 2
  (traceText opcode pc low high m.registers (m.cpu.cycles - 1), m)

/-- A processor cycle with the trace on, with the line of the instruction it has fetched. -/
def tracedCycle (m : Machine) : Option String × Machine :=
  if m.cpu.atBoundary then
    let pc := m.registers.pc
    let (opcode, m) := m.countCycle.fetch
    let (line, m) := m.trace opcode pc
    (some line, m.start opcode)
  else (none, m.cycle)

end Machine

end Famicom
