/-
The rows that a line number program describes.

The registers of the machine that runs a program are those of the row it would emit next, and the
marks that go with it.  They start anew with every sequence.
-/
import Dwarf2.Line.Instruction

namespace Dwarf2
namespace Line

/-- A line of a source file and the address of its first instruction.  Files count from
one. -/
structure Row where
  address : UInt64
  file : UInt64
  line : UInt64
deriving DecidableEq, Repr

namespace Row

def start : Row :=
  ⟨0, 1, 1⟩

def advance (r : Row) (address : UInt64) : Row :=
  { r with address := r.address + address }

def advanceLine (r : Row) (line : Int64) : Row :=
  { r with line := r.line + line.toUInt64 }

/-- What an instruction does to the registers. -/
def step (h : Header) (base : UInt64) (r : Row) : Instruction → Row
  | .special opcode => (r.advance (h.addressAdvance opcode)).advanceLine (h.lineAdvance opcode)
  | .advancePc n => r.advance (n * h.minInstructionLength.toUInt64)
  | .advanceLine n => r.advanceLine n
  | .setFile file => { r with file }
  | .constAddPc => r.advance (h.addressAdvance 255)
  | .fixedAdvancePc n => r.advance n.toUInt64
  | .setAddress address => { r with address := base + address }
  | _ => r

end Row

/-- Whether the instruction emits the row that the registers hold after it. -/
def Instruction.emits : Instruction → Bool
  | special _ | copy | endSequence => true
  | _ => false

namespace Row

/-- What is said of the next row besides: whether it begins a statement or a basic block. -/
structure Marks where
  isStatement : Bool
  basicBlock : Bool := false
deriving DecidableEq, Repr

namespace Marks

def start (h : Header) : Marks where
  isStatement := h.defaultIsStatement

/-- A row that is emitted takes the beginning of a basic block with it. -/
def step (m : Marks) : Instruction → Marks
  | .special _ | .copy => { m with basicBlock := false }
  | .negateStatement => { m with isStatement := !m.isStatement }
  | .setBasicBlock => { m with basicBlock := true }
  | _ => m

end Marks

/-- The rows so far, the last first, and the registers. -/
structure Machine where
  rows : List Row := []
  registers : Row := start
  /-- Nothing goes by the marks. -/
  marks : Marks

namespace Machine

def start (h : Header) : Machine where
  marks := .start h

def step (h : Header) (base : UInt64) (m : Machine) (i : Instruction) : Machine :=
  let r := m.registers.step h base i
  { rows := if i.emits then r :: m.rows else m.rows
    registers := if i = .endSequence then Row.start else r
    marks := if i = .endSequence then .start h else m.marks.step i }

end Machine

def ofInstructions (h : Header) (base : UInt64) (instructions : List Instruction) : List Row :=
  (instructions.foldl (Machine.step h base) (.start h)).rows.reverse

end Row
end Line
end Dwarf2
