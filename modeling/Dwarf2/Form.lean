/-
Forms: how the value of an attribute is encoded.
-/
namespace Dwarf2

inductive Form
  | addr
  | block1
  | block2
  | block4
  | block
  | data1
  | data2
  | data4
  | data8
  | flag
  | sdata
  | udata
  | string
  | strp
  | refAddr
  | ref1
  | ref2
  | ref4
  | ref8
  | refUdata
  | indirect
  | unknown (code : UInt64)
deriving DecidableEq, Repr

namespace Form

def ofCode : UInt64 → Form
  | 0x01 => addr
  | 0x03 => block2
  | 0x04 => block4
  | 0x05 => data2
  | 0x06 => data4
  | 0x07 => data8
  | 0x08 => string
  | 0x09 => block
  | 0x0a => block1
  | 0x0b => data1
  | 0x0c => flag
  | 0x0d => sdata
  | 0x0e => strp
  | 0x0f => udata
  | 0x10 => refAddr
  | 0x11 => ref1
  | 0x12 => ref2
  | 0x13 => ref4
  | 0x14 => ref8
  | 0x15 => refUdata
  | 0x16 => indirect
  | code => unknown code

/-- A location of one of these forms is an offset, not an expression. -/
def isConstant : Form → Bool
  | data1 | data2 | data4 | data8 | udata | sdata => true
  | _ => false

/-- How many bytes a value takes, where the form alone says so. -/
def length? (addressSize : UInt8) : Form → Option Nat
  | addr | refAddr => some addressSize.toNat
  | flag | data1 | ref1 => some 1
  | data2 | ref2 => some 2
  | data4 | ref4 | strp => some 4
  | data8 | ref8 => some 8
  | _ => none

end Form
end Dwarf2
