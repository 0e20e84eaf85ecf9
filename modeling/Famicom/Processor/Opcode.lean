import Famicom.Processor.Mode
import Famicom.Processor.Operation

/-!
# The opcode map

What each of the 256 opcodes does and how many cycles it takes, as two tables with sixteen opcodes
to a row. An opcode is documented if its operation is, except for the copies of `NOP` and `SBC` that
have opcodes of their own.
-/

namespace Famicom

open LoadOp StoreOp StoreHighOp ModifyOp RegisterOp BranchOp Operation

/-- The operation of each opcode. -/
def operations : Vector (Vector Operation 16) 16 := #v[
  #v[brk, load ora, jam, modify slo, nop, load ora, modify asl, modify slo,
    php, load ora, modify asl, load anc, nop, load ora, modify asl, modify slo],
  #v[branch bpl, load ora, jam, modify slo, nop, load ora, modify asl, modify slo,
    register clc, load ora, nop, modify slo, nop, load ora, modify asl, modify slo],
  #v[jsr, load .and, jam, modify rla, load .bit, load .and, modify rol, modify rla,
    plp, load .and, modify rol, load anc, load .bit, load .and, modify rol, modify rla],
  #v[branch bmi, load .and, jam, modify rla, nop, load .and, modify rol, modify rla,
    register sec, load .and, nop, modify rla, nop, load .and, modify rol, modify rla],
  #v[rti, load eor, jam, modify sre, nop, load eor, modify lsr, modify sre,
    pha, load eor, modify lsr, load alr, jmp, load eor, modify lsr, modify sre],
  #v[branch bvc, load eor, jam, modify sre, nop, load eor, modify lsr, modify sre,
    register cli, load eor, nop, modify sre, nop, load eor, modify lsr, modify sre],
  #v[rts, load adc, jam, modify rra, nop, load adc, modify ror, modify rra,
    pla, load adc, modify ror, load arr, jmp, load adc, modify ror, modify rra],
  #v[branch bvs, load adc, jam, modify rra, nop, load adc, modify ror, modify rra,
    register sei, load adc, nop, modify rra, nop, load adc, modify ror, modify rra],
  #v[nop, store sta, nop, store sax, store sty, store sta, store stx, store sax,
    register dey, nop, register txa, load xaa, store sty, store sta, store stx, store sax],
  #v[branch bcc, store sta, jam, storeHigh sha, store sty, store sta, store stx, store sax,
    register tya, store sta, register txs, storeHigh tas,
    storeHigh shy, store sta, storeHigh shx, storeHigh sha],
  #v[load ldy, load lda, load ldx, load lax, load ldy, load lda, load ldx, load lax,
    register tay, load lda, register tax, load lxa, load ldy, load lda, load ldx, load lax],
  #v[branch bcs, load lda, jam, load lax, load ldy, load lda, load ldx, load lax,
    register clv, load lda, register tsx, load las, load ldy, load lda, load ldx, load lax],
  #v[load cpy, load cmp, nop, modify dcp, load cpy, load cmp, modify dec, modify dcp,
    register iny, load cmp, register dex, load axs, load cpy, load cmp, modify dec, modify dcp],
  #v[branch bne, load cmp, jam, modify dcp, nop, load cmp, modify dec, modify dcp,
    register cld, load cmp, nop, modify dcp, nop, load cmp, modify dec, modify dcp],
  #v[load cpx, load sbc, nop, modify isc, load cpx, load sbc, modify inc, modify isc,
    register inx, load sbc, nop, load sbc, load cpx, load sbc, modify inc, modify isc],
  #v[branch beq, load sbc, jam, modify isc, nop, load sbc, modify inc, modify isc,
    register sed, load sbc, nop, modify isc, nop, load sbc, modify inc, modify isc]]

/-- The cycles of each opcode, where no page is crossed and no branch is taken. -/
def baseCycles : Vector (Vector Nat 16) 16 := #v[
  #v[7, 6, 2, 8, 3, 3, 5, 5, 3, 2, 2, 2, 4, 4, 6, 6],
  #v[2, 5, 2, 8, 4, 4, 6, 6, 2, 4, 2, 7, 4, 4, 7, 7],
  #v[6, 6, 2, 8, 3, 3, 5, 5, 4, 2, 2, 2, 4, 4, 6, 6],
  #v[2, 5, 2, 8, 4, 4, 6, 6, 2, 4, 2, 7, 4, 4, 7, 7],
  #v[6, 6, 2, 8, 3, 3, 5, 5, 3, 2, 2, 2, 3, 4, 6, 6],
  #v[2, 5, 2, 8, 4, 4, 6, 6, 2, 4, 2, 7, 4, 4, 7, 7],
  #v[6, 6, 2, 8, 3, 3, 5, 5, 4, 2, 2, 2, 5, 4, 6, 6],
  #v[2, 5, 2, 8, 4, 4, 6, 6, 2, 4, 2, 7, 4, 4, 7, 7],
  #v[2, 6, 2, 6, 3, 3, 3, 3, 2, 2, 2, 2, 4, 4, 4, 4],
  #v[2, 6, 2, 6, 4, 4, 4, 4, 2, 5, 2, 5, 5, 5, 5, 5],
  #v[2, 6, 2, 6, 3, 3, 3, 3, 2, 2, 2, 2, 4, 4, 4, 4],
  #v[2, 5, 2, 5, 4, 4, 4, 4, 2, 4, 2, 4, 4, 4, 4, 4],
  #v[2, 6, 2, 8, 3, 3, 5, 5, 2, 2, 2, 2, 4, 4, 6, 6],
  #v[2, 5, 2, 8, 4, 4, 6, 6, 2, 4, 2, 7, 4, 4, 7, 7],
  #v[2, 6, 2, 8, 3, 3, 5, 5, 2, 2, 2, 2, 4, 4, 6, 6],
  #v[2, 5, 2, 8, 4, 4, 6, 6, 2, 4, 2, 7, 4, 4, 7, 7]]

namespace Opcode

/-- The row of an opcode in the tables. -/
def row (opcode : UInt8) : Fin 16 := low4 (opcode.toNat / 16)

/-- The place of an opcode in its row. -/
def column (opcode : UInt8) : Fin 16 := low4 opcode.toNat

/-- The operation of an opcode. -/
def operation (opcode : UInt8) : Operation :=
  operations[row opcode][column opcode]

/-- The cycles of an opcode, where no page is crossed and no branch is taken. -/
def cycles (opcode : UInt8) : Nat :=
  baseCycles[row opcode][column opcode]

/-- Crossing a page costs one more cycle. That is so for the reads of the indexed rows; stores and
changes in place pay for it in any case, in their count of cycles. -/
def paysForPage (opcode : UInt8) : Bool :=
  let row := (row opcode).val
  let column := (column opcode).val
  if row = 0xb then column ∈ [0x1, 0x3, 0x9, 0xb, 0xc, 0xd, 0xe, 0xf]
  else row % 2 = 1 && row ≠ 0x9 && column ∈ [0x1, 0x9, 0xc, 0xd]

/-- The operation is documented. -/
def hasDocumentedOperation (opcode : UInt8) : Bool :=
  match operation opcode with
  | .jam | .storeHigh _ | .store sax => false
  | .load op => op ∉ [lax, anc, alr, arr, axs, xaa, lxa, las]
  | .modify op => op ∉ [slo, rla, sre, rra, dcp, isc]
  | _ => true

/-- The opcode is part of the documented instruction set. -/
def isDocumented (opcode : UInt8) : Bool :=
  hasDocumentedOperation opcode &&
    (operation opcode != nop || opcode == 0xea) && opcode != 0xeb

end Opcode

end Famicom
