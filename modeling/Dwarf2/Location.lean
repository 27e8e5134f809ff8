/-
Locations: where the value of an object lives.

An expression works on a stack that holds a zero to begin with.  Nothing is ever taken off
it, so its top is all there is to keep, and the top is the offset of the location.
-/
import Dwarf2.Attribute
import Dwarf2.Location.Operation

namespace Dwarf2

inductive Storage
  /-- The offset is an address or a plain number. -/
  | direct
  | register (number : UInt16)
  /-- The offset counts from the frame base of the enclosing function. -/
  | frameBase
deriving DecidableEq, Repr

structure Location where
  storage : Storage
  /-- Whether the storage holds the address of the value, and not the value. -/
  deref : Bool
  offset : Int64
deriving DecidableEq, Repr

namespace Location

def constant (offset : Int64) : Location :=
  ⟨.direct, false, offset⟩

/-- A location has one storage, the first that the expression names. -/
def settle (l : Location) (storage : Storage) (deref : Bool) : Location :=
  if l.storage = .direct then { l with storage, deref } else l

def push (l : Location) (offset : Int64) : Location :=
  { l with offset }

def step (l : Location) : Operation → Location
  | .addr n | .constu n => l.push n.toInt64
  | .const1u n => l.push n.toUInt64.toInt64
  | .const1s n => l.push n.toInt64
  | .const2u n => l.push n.toUInt64.toInt64
  | .const2s n => l.push n.toInt64
  | .const4u n => l.push n.toUInt64.toInt64
  | .const4s n => l.push n.toInt64
  | .consts n => l.push n
  | .plusUconst n => l.push (l.offset + n.toInt64)
  | .reg r => l.settle (.register r.toUInt16) false
  | .breg r offset => (l.settle (.register r.toUInt16) true).push offset
  | .fbreg offset => (l.settle .frameBase true).push offset
  | .piece _ | .unsupported _ => l

def ofOperations (operations : List Operation) : Location :=
  operations.foldl step (constant 0)

def ofExpression (order : ByteOrder) (addressSize : UInt8) (expression : Bytes) :
    Except Error Location :=
  (Operation.expression ⟨.information, order, expression⟩ addressSize).value 0
    |>.map ofOperations

/-- The location that an attribute describes.  A value that is no block is an offset by
itself. -/
def ofAttribute (order : ByteOrder) (addressSize : UInt8) (a : Attribute) :
    Except Error Location :=
  match if a.form.isConstant then a.value.toSigned? else none with
  | some offset => .ok (constant offset)
  | none =>
    match a.value.toBlock? with
    | some expression => ofExpression order addressSize expression
    | none => .ok (constant (a.value.toSigned?.getD 0))

end Location
end Dwarf2
