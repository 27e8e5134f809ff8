/-
Reading the header and the instructions of a line number program with steps that may panic.

No header is read with a line range or an opcode base of zero, and it is the header that special
opcodes are divided by.
-/
import Dwarf2.Line.Instruction
import Dwarf2.Proofs.Checked.Read

namespace Dwarf2
namespace Checked
namespace Line

open Dwarf2.Line (Header Instruction)
open Reader (Follows)

/-! ## Headers -/

def readHeader (s : Section) : Reader Header := do
  let start ← .position
  let unitLength ← Section.uint32 s
  let _version ← Section.uint16 s
  let headerLength ← Section.uint32 s
  let fields ← .position
  let minInstructionLength ← Section.uint8 s
  let isStatement ← Section.uint8 s
  let lineBase ← Section.int8 s
  let lineRange ← Section.uint8 s
  let opcodeBase ← Section.uint8 s
  if lineRange_ne_zero : lineRange ≠ 0 then
    if opcodeBase_ne_zero : opcodeBase ≠ 0 then
      let operandCounts ← Section.block s (← .step (sub opcodeBase.toNat 1))
      return {
        minInstructionLength, lineBase, lineRange, opcodeBase, operandCounts,
        lineRange_ne_zero, opcodeBase_ne_zero
        defaultIsStatement := isStatement ≠ 0
        program := fields + headerLength.toNat
        stop := min (start + 4 + unitLength.toNat) s.bytes.size }
    else
      Section.fault s (.zeroOpcodeBase start)
  else
    Section.fault s (.zeroLineRange start)

def addressAdvance (h : Header) (opcode : UInt8) : Checked UInt64 := do
  let instructions ← divByte (opcode - h.opcodeBase) h.lineRange
  mulWord instructions.toUInt64 h.minInstructionLength.toUInt64

def lineAdvance (h : Header) (opcode : UInt8) : Checked Int64 := do
  let lines ← modByte (opcode - h.opcodeBase) h.lineRange
  addSigned h.lineBase.toInt64 lines.toUInt64.toInt64

variable {s : Section}

theorem follows_readHeader (h : Addressable s) (start : Nat) :
    Follows (readHeader s) (Header.read s) start := by
  refine .bind (.position start) fun _ _ _ => ?_
  refine .bind (Section.follows_uint32 h _) fun _ _ _ => ?_
  refine .bind (Section.follows_uint16 h _) fun _ _ _ => ?_
  refine .bind (Section.follows_uint32 h _) fun _ _ _ => ?_
  refine .bind (.position _) fun _ _ _ => ?_
  refine .bind (Section.follows_uint8 h _) fun _ _ _ => ?_
  refine .bind (Section.follows_uint8 h _) fun _ _ _ => ?_
  refine .bind (Section.follows_int8 h _) fun _ _ _ => ?_
  refine .bind (Section.follows_uint8 h _) fun lineRange _ _ => ?_
  refine .bind (Section.follows_uint8 h _) fun opcodeBase _ _ => ?_
  by_cases range : lineRange = 0
  · simp only [range, ne_eq, not_true_eq_false, dite_false]
    exact Section.follows_fault _ _
  by_cases base : opcodeBase = 0
  · simp only [base, range, ne_eq, not_true_eq_false, not_false_eq_true, dite_true, dite_false]
    exact Section.follows_fault _ _
  have pos : 1 ≤ opcodeBase.toNat :=
    Nat.pos_of_ne_zero fun zero => base (UInt8.toNat.inj zero)
  simp only [base, range, ne_eq, not_false_eq_true, dite_true]
  exact .step (guarded_of pos _ _) (.bind (Section.follows_block h _ _) fun _ _ _ => .pure _ _)

theorem addressAdvance_eq (h : Header) (opcode : UInt8) :
    addressAdvance h opcode = .ok (h.addressAdvance opcode) := by
  rw [addressAdvance, divByte, guarded_of h.lineRange_ne_zero, ok_bind, mulWord]
  refine guarded_of ?_ _ _
  rw [UInt8.toNat_toUInt64, UInt8.toNat_toUInt64]
  have instructions := ((opcode - h.opcodeBase) / h.lineRange).toNat_lt
  have length := h.minInstructionLength.toNat_lt
  calc _ ≤ 2 ^ 8 * 2 ^ 8 := Nat.mul_le_mul (Nat.le_of_lt instructions) (Nat.le_of_lt length)
    _ < 2 ^ 64 := by decide

theorem lineAdvance_eq (h : Header) (opcode : UInt8) :
    lineAdvance h opcode = .ok (h.lineAdvance opcode) := by
  rw [lineAdvance, modByte, guarded_of h.lineRange_ne_zero, ok_bind, addSigned]
  refine guarded_of ?_ _ _
  rw [Int8.toInt_toInt64, Dwarf2.Leb128.toInt_toInt64, UInt8.toNat_toUInt64]
  generalize (opcode - h.opcodeBase) % h.lineRange = lines
  have small := lines.toNat_lt
  rw [Int.bmod_eq_of_le (by omega) (by omega)]
  have := h.lineBase.le_toInt
  have := h.lineBase.toInt_lt
  omega

/-! ## Instructions -/

def readOperands (s : Section) : (count : Nat) → Reader Unit
  | 0 => return ()
  | count + 1 => do
    let _ ← Section.leb128 s
    readOperands s count

def readExtended (s : Section) (addressSize : UInt8) : Reader Instruction := do
  let length ← Section.unsigned s
  if length = 0 then
    return .unknownExtended 0
  match ← Section.uint8 s with
  | 1 => return .endSequence
  | 2 => return .setAddress (← Section.address s addressSize)
  | 3 =>
    let _name ← Section.string s
    readOperands s 3
    return .defineFile
  | opcode =>
    let operands ← .step (sub length 1)
    Section.skip s operands.toNat
    return .unknownExtended opcode

/-- The operands of an unknown opcode are counted in a list that starts with opcode 1. -/
def readStandard (s : Section) (h : Header) (addressSize : UInt8) (opcode : UInt8) :
    Reader Instruction :=
  match opcode with
  | 0 => readExtended s addressSize
  | 1 => return .copy
  | 2 => return .advancePc (← Section.unsigned s)
  | 3 => return .advanceLine (← Section.signed s)
  | 4 => return .setFile (← Section.unsigned s)
  | 5 => return .setColumn (← Section.unsigned s)
  | 6 => return .negateStatement
  | 7 => return .setBasicBlock
  | 8 => return .constAddPc
  | 9 => return .fixedAdvancePc (← Section.uint16 s)
  | opcode => do
    let index ← .step (sub opcode.toNat 1)
    readOperands s (h.operandCounts.getD index 0).toNat
    return .unknownStandard opcode

def readInstruction (s : Section) (h : Header) (addressSize : UInt8) : Reader Instruction := do
  let opcode ← Section.uint8 s
  if h.opcodeBase ≤ opcode then
    return .special opcode
  readStandard s h addressSize opcode

theorem follows_readOperands (h : Addressable s) (count start : Nat) :
    Follows (readOperands s count) (Instruction.readOperands s count) start := by
  induction count generalizing start with
  | zero => exact .pure _ _
  | succ count ih => exact .bind (Section.follows_leb128 h start) fun _ _ _ => ih _

theorem follows_readExtended (h : Addressable s) (addressSize : UInt8) (start : Nat) :
    Follows (readExtended s addressSize) (Instruction.readExtended s addressSize) start := by
  refine .bind (Section.follows_unsigned h start) fun length _ _ => ?_
  refine .ite (fun _ => .pure _ _) fun some => ?_
  refine .bind (Section.follows_uint8 h _) fun opcode _ _ => ?_
  have pos : 1 ≤ length.toNat := Nat.pos_of_ne_zero fun zero => some (UInt64.toNat.inj zero)
  have le : 1 ≤ length := UInt64.le_iff_toNat_le.2 pos
  have rest : (length - 1).toNat = length.toNat - 1 := UInt64.toNat_sub_of_le _ _ le
  by_cases endsSequence : opcode = 1
  · subst endsSequence
    exact .pure _ _
  by_cases setsAddress : opcode = 2
  · subst setsAddress
    exact .bind (Section.follows_address h _ _) fun _ _ _ => .pure _ _
  by_cases definesFile : opcode = 3
  · subst definesFile
    refine .bind (Section.follows_string h _) fun _ _ _ => ?_
    exact .bind (follows_readOperands h 3 _) fun _ _ _ => .pure _ _
  -- The last alternative is left on both sides.
  simp only
  refine .step (guarded_of le _ _) ?_
  rw [rest]
  exact .bind (Section.follows_skip h _ _) fun _ _ _ => .pure _ _

theorem follows_readStandard (h : Addressable s) (header : Header) (addressSize opcode : UInt8)
    (start : Nat) :
    Follows (readStandard s header addressSize opcode)
      (Instruction.readStandard s header addressSize opcode) start := by
  unfold readStandard
  split
  · exact follows_readExtended h addressSize start
  · exact .pure _ _
  · exact .bind (Section.follows_unsigned h start) fun _ _ _ => .pure _ _
  · exact .bind (Section.follows_signed h start) fun _ _ _ => .pure _ _
  · exact .bind (Section.follows_unsigned h start) fun _ _ _ => .pure _ _
  · exact .bind (Section.follows_unsigned h start) fun _ _ _ => .pure _ _
  · exact .pure _ _
  · exact .pure _ _
  · exact .pure _ _
  · exact .bind (Section.follows_uint16 h start) fun _ _ _ => .pure _ _
  · rename_i other _ _ _ _ _ _ _ _ _
    have pos : 1 ≤ opcode.toNat :=
      Nat.pos_of_ne_zero fun zero => other (UInt8.toNat.inj zero)
    unfold Instruction.readStandard
    simp only [*]
    refine .step (guarded_of pos _ _) ?_
    exact .bind (follows_readOperands h _ _) fun _ _ _ => .pure _ _

theorem follows_readInstruction (h : Addressable s) (header : Header) (addressSize : UInt8)
    (start : Nat) :
    Follows (readInstruction s header addressSize) (Instruction.read s header addressSize)
      start := by
  refine .bind (Section.follows_uint8 h start) fun opcode _ _ => ?_
  exact .ite (fun _ => .pure _ _) fun _ => follows_readStandard h header addressSize opcode _

end Line
end Checked
end Dwarf2
