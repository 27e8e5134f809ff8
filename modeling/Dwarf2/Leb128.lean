/-
LEB128 numbers: groups of seven bits, the least significant first, and the high bit set on
every group but the last.

Any number of groups may spell a number.  An unsigned value stops at the largest word, and a
signed one keeps its low 64 bits.
-/
import Dwarf2.Bytes

namespace Dwarf2
namespace Leb128

def isLast (group : UInt8) : Bool :=
  group < 0x80

def payload (group : UInt8) : UInt64 :=
  (group &&& 0x7f).toUInt64

/-- Index of the last group of the number that starts at `start`. -/
def last? (bytes : Bytes) (start : Nat) : Option Nat :=
  bytes.indexFrom? isLast start

def groups? (bytes : Bytes) (start : Nat) : Option (List UInt8) :=
  (last? bytes start).map fun last => (bytes.extract start (last + 1)).toList

def isZero (groups : List UInt8) : Bool :=
  groups.all (payload · = 0)

/-- Puts a group in below `high`, whose top seven bits are lost. -/
def shiftIn (group : UInt8) (high : UInt64) : UInt64 :=
  high <<< 7 ||| payload group

/-- Puts a group in below `high`.  From `2 ^ 57` on the result has no room in a word. -/
def pushGroup (group : UInt8) (high : UInt64) : UInt64 :=
  if high < 0x200000000000000 then shiftIn group high else 0xffffffffffffffff

/-- The value, or the largest word when it does not fit.  Zero groups at the end add
nothing. -/
def unsigned (groups : List UInt8) : UInt64 :=
  groups.foldr pushGroup 0

/-- What stands above the last group: its bit 6 repeated. -/
def signFill (groups : List UInt8) : UInt64 :=
  match groups.getLast? with
  | some last => if last &&& 0x40 = 0 then 0 else 0xffffffffffffffff
  | none => 0

/-- Two's complement value; groups past the 64th bit are shifted out. -/
def signed (groups : List UInt8) : Int64 :=
  (groups.foldr shiftIn (signFill groups)).toInt64

def uint16? (groups : List UInt8) : Option UInt16 :=
  let value := unsigned groups
  if value ≤ 0xffff then some value.toUInt16 else none

def uint32? (groups : List UInt8) : Option UInt32 :=
  let value := unsigned groups
  if value ≤ 0xffffffff then some value.toUInt32 else none

inductive Fault
  | endOfBuffer
  | tooNarrow
deriving DecidableEq, Repr

def Fault.message : Fault → String
  | endOfBuffer => "the backing slice ends before the LEB128 value"
  | tooNarrow => "the target integer is too narrow for this LEB128 value"

end Leb128
end Dwarf2
