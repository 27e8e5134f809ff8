/-
The sections as one unit sees them, with what its header says about the values in them:
where the unit starts and how wide its addresses are.

A value can be read or passed over.  Both follow indirect forms first, and both take the
same bytes.
-/
import Dwarf2.Attribute
import Dwarf2.Section

namespace Dwarf2

/-- The largest offset: references that point past it point to it. -/
def lastOffset : Nat := 0xffffffffffffffff

structure UnitView where
  order : ByteOrder
  information : Bytes
  strings : Bytes
  /-- Offset of the unit header, which references within the unit count from. -/
  base : Nat
  addressSize : UInt8

namespace UnitView

variable (v : UnitView)

def info : Section :=
  ⟨.information, v.order, v.information⟩

/-- The form that a chain of indirect forms ends in, and where its value starts. -/
def followIndirect (start : Nat) : Except Error (Form × Nat) :=
  match eq : v.info.unsigned.run start with
  | .error e => .error e
  | .ok (code, next) =>
    have := v.info.unsigned_progresses start code next eq
    match Form.ofCode code with
    | .indirect => followIndirect next
    | form => .ok (form, next)
termination_by v.information.size - start
decreasing_by simp only [info] at this; omega

theorem le_of_followIndirect {start stop : Nat} {form : Form}
    (eq : v.followIndirect start = .ok (form, stop)) : start ≤ stop := by
  fun_induction followIndirect v start with
  | case1 => cases eq
  | case2 start code next _ progress _ ih => exact Nat.le_trans (Nat.le_of_lt progress.2) (ih eq)
  | case3 start code next _ progress => cases eq; exact Nat.le_of_lt progress.2

/-- The form of the value that follows. -/
def actualForm : Form → Read Form
  | .indirect => .ofRun v.followIndirect fun _ _ _ eq => v.le_of_followIndirect eq
  | form => pure form

def reference (offset : UInt64) : AttributeValue :=
  .reference (min (v.base + offset.toNat) lastOffset)

def stringAt? (offset : Nat) : Option Bytes :=
  ((⟨.strings, v.order, v.strings⟩ : Section).string.value offset).toOption

/-- A value of a form that is not indirect.  None is a value that cannot be represented:
one of eight bytes, a string that is not there, or one of an unknown form, which is taken to
have no bytes. -/
def readDirect? : Form → Read (Option AttributeValue)
  | .addr => return some (.address (← v.info.address v.addressSize))
  | .flag | .data1 => return some (.unsigned (← v.info.fixed 1))
  | .data2 => return some (.unsigned (← v.info.fixed 2))
  | .data4 => return some (.unsigned (← v.info.fixed 4))
  | .udata => return some (.unsigned (← v.info.unsigned))
  | .sdata => return some (.signed (← v.info.signed))
  | .string => return some (.string (← v.info.string))
  | .strp => return (v.stringAt? (← v.info.uint32).toNat).map .string
  | .refAddr => return some (.reference (← v.info.address v.addressSize).toNat)
  | .ref1 => return some (v.reference (← v.info.fixed 1))
  | .ref2 => return some (v.reference (← v.info.fixed 2))
  | .ref4 => return some (v.reference (← v.info.fixed 4))
  | .refUdata => return some (v.reference (← v.info.unsigned))
  | .block1 => return some (.block (← v.info.block (← v.info.uint8).toNat))
  | .block2 => return some (.block (← v.info.block (← v.info.uint16).toNat))
  | .block4 => return some (.block (← v.info.block (← v.info.uint32).toNat))
  | .block => return some (.block (← v.info.block (← v.info.unsigned).toNat))
  | .data8 | .ref8 => do v.info.skip 8; return none
  | .indirect | .unknown _ => return none

/-- The value at the position, with the form it is encoded in. -/
def readValue? (form : Form) : Read (Form × Option AttributeValue) := do
  let form ← v.actualForm form
  return (form, ← v.readDirect? form)

/-- Passes over a value of a form that is not indirect. -/
def skipDirect (form : Form) : Read Unit :=
  match form.length? v.addressSize with
  | some length => v.info.skip length
  | none =>
    match form with
    | .udata | .sdata | .refUdata => do let _ ← v.info.leb128
    | .string => do let _ ← v.info.string
    | .block1 => do v.info.skip (← v.info.uint8).toNat
    | .block2 => do v.info.skip (← v.info.uint16).toNat
    | .block4 => do v.info.skip (← v.info.uint32).toNat
    | .block => do v.info.skip (← v.info.unsigned).toNat
    | _ => pure ()

def skipValue (form : Form) : Read Unit := do
  v.skipDirect (← v.actualForm form)

end UnitView
end Dwarf2
