/-
The header of a line number program: how its opcodes are to be read, and where it starts
and ends.
-/
import Dwarf2.Section

namespace Dwarf2
namespace Line

structure Header where
  minInstructionLength : UInt8
  /-- Whether rows begin statements unless an instruction says otherwise. -/
  defaultIsStatement : Bool
  lineBase : Int8
  lineRange : UInt8
  /-- The first special opcode. -/
  opcodeBase : UInt8
  /-- How many operands each standard opcode has, starting with opcode 1. -/
  operandCounts : Bytes
  /-- Where the first instruction is. -/
  program : Nat
  /-- Where the program ends, inside the section. -/
  stop : Nat
  lineRange_ne_zero : lineRange ≠ 0
  opcodeBase_ne_zero : opcodeBase ≠ 0

namespace Header

/-- The version is not looked at. -/
def read (s : Section) : Read Header := do
  let start ← Read.position
  let unitLength ← s.uint32
  let _version ← s.uint16
  let headerLength ← s.uint32
  let fields ← Read.position
  let minInstructionLength ← s.uint8
  let isStatement ← s.uint8
  let lineBase ← s.int8
  let lineRange ← s.uint8
  let opcodeBase ← s.uint8
  if lineRange_ne_zero : lineRange ≠ 0 then
    if opcodeBase_ne_zero : opcodeBase ≠ 0 then
      let operandCounts ← s.block (opcodeBase.toNat - 1)
      return {
        minInstructionLength, lineBase, lineRange, opcodeBase, operandCounts,
        lineRange_ne_zero, opcodeBase_ne_zero
        defaultIsStatement := isStatement ≠ 0
        program := fields + headerLength.toNat
        stop := min (start + 4 + unitLength.toNat) s.bytes.size }
    else
      s.fault (.zeroOpcodeBase start)
  else
    s.fault (.zeroLineRange start)

/-- How far a special opcode advances the address. -/
def addressAdvance (h : Header) (opcode : UInt8) : UInt64 :=
  ((opcode - h.opcodeBase) / h.lineRange).toUInt64 * h.minInstructionLength.toUInt64

/-- How far a special opcode advances the line. -/
def lineAdvance (h : Header) (opcode : UInt8) : Int64 :=
  h.lineBase.toInt64 + ((opcode - h.opcodeBase) % h.lineRange).toUInt64.toInt64

end Header
end Line
end Dwarf2
