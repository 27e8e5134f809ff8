/-
Operations of location expressions.
-/
import Dwarf2.Section

namespace Dwarf2
namespace Location

inductive Operation
  | addr (address : UInt64)
  | const1u (n : UInt8)
  | const1s (n : Int8)
  | const2u (n : UInt16)
  | const2s (n : Int16)
  | const4u (n : UInt32)
  | const4s (n : Int32)
  | constu (n : UInt64)
  | consts (n : Int64)
  | plusUconst (n : UInt64)
  /-- The value is in the register. -/
  | reg (register : UInt8)
  /-- The value is at an offset from the address in the register. -/
  | breg (register : UInt8) (offset : Int64)
  /-- The value is at an offset from the frame base. -/
  | fbreg (offset : Int64)
  /-- The expression so far describes this many bytes of the value. -/
  | piece (size : UInt64)
  /-- The operands of any other operation have an unknown length. -/
  | unsupported (opcode : UInt8)
deriving DecidableEq, Repr

namespace Operation

def readOperands (s : Section) (addressSize : UInt8) (opcode : UInt8) : Read Operation :=
  match opcode with
  | 0x03 => return addr (← s.address addressSize)
  | 0x08 => return const1u (← s.uint8)
  | 0x09 => return const1s (← s.int8)
  | 0x0a => return const2u (← s.uint16)
  | 0x0b => return const2s (← s.uint16).toInt16
  | 0x0c => return const4u (← s.uint32)
  | 0x0d => return const4s (← s.uint32).toInt32
  | 0x10 => return constu (← s.unsigned)
  | 0x11 => return consts (← s.signed)
  | 0x23 => return plusUconst (← s.unsigned)
  | 0x91 => return fbreg (← s.signed)
  | 0x93 => return piece (← s.unsigned)
  | opcode =>
    if 0x50 ≤ opcode ∧ opcode ≤ 0x6f then return reg (opcode - 0x50)
    else if 0x70 ≤ opcode ∧ opcode ≤ 0x8f then return breg (opcode - 0x70) (← s.signed)
    else return unsupported opcode

def read (s : Section) (addressSize : UInt8) : Read Operation := do
  readOperands s addressSize (← s.uint8)

theorem read_progresses (s : Section) (addressSize : UInt8) :
    (read s addressSize).Progresses s.bytes.size :=
  s.uint8_progresses.bind _

/-- The next operation; none at the end of the data. -/
def next? (s : Section) (addressSize : UInt8) : Read (Option Operation) :=
  s.untilEnd (some <$> read s addressSize)

theorem next?_itemsProgress (s : Section) (addressSize : UInt8) :
    (next? s addressSize).ItemsProgress s.bytes.size :=
  s.untilEnd_itemsProgress ((read_progresses s addressSize).map some)

/-- The operations up to the end of the data, or up to a failure. -/
def collect (s : Section) (addressSize : UInt8) : List Operation × Except Error Unit :=
  let r := Read.collect (next? s addressSize) s.bytes.size (next?_itemsProgress s addressSize) 0
  (r.1, r.2.map fun _ => ())

def isSupported : Operation → Bool
  | unsupported _ => false
  | _ => true

/-- The next operation; none at the end of the data and for an unsupported one. -/
def nextSupported? (s : Section) (addressSize : UInt8) : Read (Option Operation) :=
  s.untilEnd ((fun op => if op.isSupported then some op else none) <$> read s addressSize)

/-- The operations that can be evaluated.  Nothing behind an unsupported one can, as it is
not known where its operands end. -/
def expression (s : Section) (addressSize : UInt8) : Read (List Operation) :=
  Read.many (nextSupported? s addressSize) s.bytes.size
    (s.untilEnd_itemsProgress ((read_progresses s addressSize).map _))

end Operation
end Location
end Dwarf2
