/-
Instructions of line number programs.

There are three kinds of opcodes.  The header says where the special ones begin and how many
operands an unknown standard one has; an extended one comes with its length.
-/
import Dwarf2.Line.Header

namespace Dwarf2
namespace Line

inductive Instruction
  | special (opcode : UInt8)
  | copy
  | advancePc (advance : UInt64)
  | advanceLine (advance : Int64)
  | setFile (file : UInt64)
  | setColumn (column : UInt64)
  | negateStatement
  | setBasicBlock
  | constAddPc
  | fixedAdvancePc (advance : UInt16)
  | unknownStandard (opcode : UInt8)
  | endSequence
  | setAddress (address : UInt64)
  | defineFile
  | unknownExtended (opcode : UInt8)
deriving DecidableEq, Repr

namespace Instruction

def readOperands (s : Section) : (count : Nat) → Read Unit
  | 0 => return ()
  | count + 1 => do
    let _ ← s.leb128
    readOperands s count

/-- What follows the opcode zero. -/
def readExtended (s : Section) (addressSize : UInt8) : Read Instruction := do
  let length ← s.unsigned
  if length = 0 then
    return unknownExtended 0
  match ← s.uint8 with
  | 1 => return endSequence
  | 2 => return setAddress (← s.address addressSize)
  | 3 =>
    let _name ← s.string
    readOperands s 3
    return defineFile
  | opcode =>
    s.skip (length.toNat - 1)
    return unknownExtended opcode

/-- What follows an opcode that is not special. -/
def readStandard (s : Section) (h : Header) (addressSize : UInt8) (opcode : UInt8) :
    Read Instruction :=
  match opcode with
  | 0 => readExtended s addressSize
  | 1 => return copy
  | 2 => return advancePc (← s.unsigned)
  | 3 => return advanceLine (← s.signed)
  | 4 => return setFile (← s.unsigned)
  | 5 => return setColumn (← s.unsigned)
  | 6 => return negateStatement
  | 7 => return setBasicBlock
  | 8 => return constAddPc
  | 9 => return fixedAdvancePc (← s.uint16)
  | opcode => do
    readOperands s (h.operandCounts.getD (opcode.toNat - 1) 0).toNat
    return unknownStandard opcode

def read (s : Section) (h : Header) (addressSize : UInt8) : Read Instruction := do
  let opcode ← s.uint8
  if h.opcodeBase ≤ opcode then
    return special opcode
  readStandard s h addressSize opcode

theorem read_progresses (s : Section) (h : Header) (addressSize : UInt8) :
    (read s h addressSize).Progresses s.bytes.size :=
  s.uint8_progresses.bind _

/-- Reads on until the data ends behind a complete sequence.  `inside` tells whether a
sequence has begun, in which case it has to go on. -/
def collectOnto (s : Section) (h : Header) (addressSize : UInt8)
    (instructions : List Instruction) (inside : Bool) (start : Nat) :
    List Instruction × Except Error Unit :=
  if !inside && s.bytes.size ≤ start then
    (instructions, .ok ())
  else
    match eq : (read s h addressSize).run start with
    | .error e => (instructions, .error e)
    | .ok (i, next) =>
      have := read_progresses s h addressSize start i next eq
      collectOnto s h addressSize (i :: instructions) (i ≠ .endSequence) next
termination_by s.bytes.size - start

/-- The instructions from `start` on, and why the reading ended. -/
def collect (s : Section) (h : Header) (addressSize : UInt8) (start : Nat) :
    List Instruction × Except Error Unit :=
  let r := collectOnto s h addressSize [] false start
  (r.1.reverse, r.2)

end Instruction
end Line
end Dwarf2
