/-
Attribute values, and the views of a value as a number, a reference, text or a block.
-/
import Dwarf2.AttributeName
import Dwarf2.Bytes
import Dwarf2.Form
import Dwarf2.Text.Utf8

namespace Dwarf2

inductive AttributeValue
  | unsigned (n : UInt64)
  | signed (n : Int64)
  | address (n : UInt64)
  /-- Offset of an entry in the information section. -/
  | reference (offset : Nat)
  | string (bytes : Bytes)
  | block (bytes : Bytes)
deriving DecidableEq, Repr

namespace AttributeValue

def toUnsigned? : AttributeValue → Option UInt64
  | unsigned n | address n => some n
  | signed n => some n.toUInt64
  | reference offset => some (UInt64.ofNat offset)
  | _ => none

def toSigned? : AttributeValue → Option Int64
  | signed n => some n
  | value => value.toUnsigned?.map UInt64.toInt64

def toReference? : AttributeValue → Option Nat
  | reference offset => some offset
  | _ => none

def toText? : AttributeValue → Option String
  | string bytes => some (Text.ofUtf8 bytes)
  | _ => none

def toBlock? : AttributeValue → Option Bytes
  | block bytes => some bytes
  | _ => none

end AttributeValue

/-- A value with the form it was encoded in, where an indirect form has been followed. -/
structure Attribute where
  name : AttributeName
  form : Form
  value : AttributeValue
deriving DecidableEq, Repr

end Dwarf2
