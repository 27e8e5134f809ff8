/-
Evaluating locations with steps that may panic, up to the identifiers of their registers.
-/
import Dwarf2.Location
import Dwarf2.Proofs.Checked.Read
import Dwarf2.Register

namespace Dwarf2
namespace Checked

open Reader (Follows)

namespace Location

def readOperands (s : Section) (addressSize opcode : UInt8) : Reader Location.Operation :=
  match opcode with
  | 0x03 => return .addr (← Section.address s addressSize)
  | 0x08 => return .const1u (← Section.uint8 s)
  | 0x09 => return .const1s (← Section.int8 s)
  | 0x0a => return .const2u (← Section.uint16 s)
  | 0x0b => return .const2s (← Section.uint16 s).toInt16
  | 0x0c => return .const4u (← Section.uint32 s)
  | 0x0d => return .const4s (← Section.uint32 s).toInt32
  | 0x10 => return .constu (← Section.unsigned s)
  | 0x11 => return .consts (← Section.signed s)
  | 0x23 => return .plusUconst (← Section.unsigned s)
  | 0x91 => return .fbreg (← Section.signed s)
  | 0x93 => return .piece (← Section.unsigned s)
  | opcode =>
    if 0x50 ≤ opcode ∧ opcode ≤ 0x6f then do
      return .reg (← .step (sub opcode 0x50))
    else if 0x70 ≤ opcode ∧ opcode ≤ 0x8f then do
      return .breg (← .step (sub opcode 0x70)) (← Section.signed s)
    else
      return .unsupported opcode

variable {s : Section}

theorem follows_readOperands (h : Addressable s) (addressSize opcode : UInt8) (start : Nat) :
    Follows (readOperands s addressSize opcode)
      (Location.Operation.readOperands s addressSize opcode) start := by
  unfold readOperands
  split
  · exact .bind (Section.follows_address h _ _) fun _ _ _ => .pure _ _
  · exact .bind (Section.follows_uint8 h _) fun _ _ _ => .pure _ _
  · exact .bind (Section.follows_int8 h _) fun _ _ _ => .pure _ _
  · exact .bind (Section.follows_uint16 h _) fun _ _ _ => .pure _ _
  · exact .bind (Section.follows_uint16 h _) fun _ _ _ => .pure _ _
  · exact .bind (Section.follows_uint32 h _) fun _ _ _ => .pure _ _
  · exact .bind (Section.follows_uint32 h _) fun _ _ _ => .pure _ _
  · exact .bind (Section.follows_unsigned h _) fun _ _ _ => .pure _ _
  · exact .bind (Section.follows_signed h _) fun _ _ _ => .pure _ _
  · exact .bind (Section.follows_unsigned h _) fun _ _ _ => .pure _ _
  · exact .bind (Section.follows_signed h _) fun _ _ _ => .pure _ _
  · exact .bind (Section.follows_unsigned h _) fun _ _ _ => .pure _ _
  · -- The opcode is none of those above.
    unfold Location.Operation.readOperands
    simp only [*]
    refine .ite (fun range => .step (guarded_of range.1 _ _) (.pure _ _)) fun _ => ?_
    refine .ite (fun range => .step (guarded_of range.1 _ _) ?_) fun _ => .pure _ _
    exact .bind (Section.follows_signed h _) fun _ _ _ => .pure _ _

/-- The next operation; none at the end of the data and for an unsupported one. -/
def nextSupported? (s : Section) (addressSize : UInt8) : Reader (Option Location.Operation) :=
  Section.untilEnd s ((fun op => if op.isSupported then some op else none) <$> do
    readOperands s addressSize (← Section.uint8 s))

def expression (s : Section) (addressSize : UInt8) : Reader (List Location.Operation) :=
  .many (nextSupported? s addressSize) (s.bytes.size + 1)

/-- A further register is compared with the one that follows the first. -/
def compareNext (l : Dwarf2.Location) : Checked Unit := do
  match l.storage with
  | .register first => let _ ← addShort first 1
  | _ => return ()

def step (l : Dwarf2.Location) (op : Location.Operation) : Checked Dwarf2.Location := do
  match op with
  | .reg _ | .breg _ _ => compareNext l
  | _ => pure ()
  return l.step op

def ofOperations (operations : List Location.Operation) : Checked Dwarf2.Location :=
  operations.foldlM step (.constant 0)

def ofExpression (order : ByteOrder) (addressSize : UInt8) (bytes : Bytes) :
    Checked (Except Error Dwarf2.Location) := do
  match ← expression ⟨.information, order, bytes⟩ addressSize 0 with
  | .error e => return .error e
  | .ok (operations, _) => return .ok (← ofOperations operations)

def ofAttribute (order : ByteOrder) (addressSize : UInt8) (a : Attribute) :
    Checked (Except Error Dwarf2.Location) :=
  match if a.form.isConstant then a.value.toSigned? else none with
  | some offset => return .ok (.constant offset)
  | none =>
    match a.value.toBlock? with
    | some bytes => ofExpression order addressSize bytes
    | none => return .ok (.constant (a.value.toSigned?.getD 0))

/-- The registers of a bank go by their numbers in it. -/
def toCodeView (register : UInt16) : Checked UInt16 := do
  if 16 ≤ register ∧ register ≤ 23 then
    addShort 128 (← sub register 16)
  else if 32 ≤ register ∧ register ≤ 39 then
    addShort 154 (← sub register 32)
  else
    return Register.toCodeView register

theorem follows_nextSupported? (h : Addressable s) (addressSize : UInt8) (start : Nat) :
    Follows (nextSupported? s addressSize) (Location.Operation.nextSupported? s addressSize)
      start := by
  refine Section.follows_untilEnd (.map _ ?_)
  exact .bind (Section.follows_uint8 h start) fun opcode _ _ =>
    follows_readOperands h addressSize opcode _

theorem follows_expression (h : Addressable s) (addressSize : UInt8) (start : Nat) :
    Follows (expression s addressSize) (Location.Operation.expression s addressSize) start :=
  .many _ (by omega) fun position _ => follows_nextSupported? h addressSize position

/-- The register of a location, if it has one, is known by the byte of an operation. -/
def Small (l : Dwarf2.Location) : Prop :=
  ∀ r, l.storage = .register r → r.toNat < 2 ^ 8

theorem small_step {l : Dwarf2.Location} (h : Small l) (op : Location.Operation) :
    Small (l.step op) := by
  have settled (byte : UInt8) (deref : Bool) :
      Small (l.settle (.register byte.toUInt16) deref) := by
    unfold Dwarf2.Location.settle
    split
    · rintro r ⟨⟩
      exact byte.toNat_lt
    · exact h
  cases op
  case reg byte => exact settled byte false
  case breg byte offset => exact settled byte true
  case fbreg offset =>
    change Small (l.settle .frameBase true)
    unfold Dwarf2.Location.settle
    split
    · exact nofun
    · exact h
  all_goals exact h

theorem step_eq {l : Dwarf2.Location} (h : Small l) (op : Location.Operation) :
    step l op = .ok (l.step op) := by
  have compared : compareNext l = .ok () := by
    unfold compareNext
    split
    · rename_i first named
      have := h first named
      rw [addShort, guarded_of (by change _ + 1 < _; omega)]
      rfl
    · rfl
  cases op
  case reg | breg =>
    simp only [step, compared]
    rfl
  all_goals rfl

theorem ofOperations_eq (operations : List Location.Operation) :
    ofOperations operations = .ok (Dwarf2.Location.ofOperations operations) := by
  have start : Small (.constant 0) := nofun
  exact foldlM_eq (fun _ => Small) (fun op _ _ h => ⟨step_eq h op, small_step h op⟩) start

theorem ofExpression_eq (order : ByteOrder) (addressSize : UInt8) {bytes : Bytes}
    (h : bytes.size < 2 ^ 64) :
    ofExpression order addressSize bytes =
      .ok (Dwarf2.Location.ofExpression order addressSize bytes) := by
  have reads := follows_expression (s := ⟨.information, order, bytes⟩) h addressSize 0
  rw [ofExpression, reads.run_eq, ok_bind, Dwarf2.Location.ofExpression, Read.value]
  cases (Location.Operation.expression ⟨.information, order, bytes⟩ addressSize).run 0 with
  | error e => rfl
  | ok r =>
    change (ofOperations r.1 >>= _) = _
    rw [ofOperations_eq]
    rfl

theorem ofAttribute_eq (order : ByteOrder) (addressSize : UInt8) {a : Attribute}
    (h : ∀ bytes, a.value.toBlock? = some bytes → bytes.size < 2 ^ 64) :
    ofAttribute order addressSize a = .ok (Dwarf2.Location.ofAttribute order addressSize a) := by
  unfold ofAttribute Dwarf2.Location.ofAttribute
  generalize (if a.form.isConstant then a.value.toSigned? else none) = constant?
  cases constant? with
  | some offset => rfl
  | none =>
    cases block : a.value.toBlock? with
    | some bytes => exact ofExpression_eq order addressSize (h bytes block)
    | none => rfl

/-- A register of a bank of eight has room behind any start of a bank. -/
theorem addShort_sub {register low high first : UInt16} (bank : low ≤ register ∧ register ≤ high)
    (room : first.toNat + high.toNat < 2 ^ 16) :
    (do addShort first (← sub register low)) = .ok (first + (register - low)) := by
  have index : sub register low = .ok (register - low) := guarded_of bank.1 _ _
  have small : (register - low).toNat ≤ high.toNat := by
    rw [UInt16.toNat_sub_of_le _ _ bank.1]
    have := UInt16.le_iff_toNat_le.1 bank.2
    omega
  rw [index, ok_bind, addShort, guarded_of (by omega)]

theorem toCodeView_eq (register : UInt16) :
    toCodeView register = .ok (Register.toCodeView register) := by
  have above {low : UInt16} (le : low ≤ register) {high : UInt16} (lt : high < low) :
      ¬register ≤ high :=
    UInt16.not_le.2 (UInt16.lt_of_lt_of_le lt le)
  rw [toCodeView]
  split
  · rename_i bank
    unfold Register.toCodeView
    rw [addShort_sub bank (by decide), if_neg (above bank.1 (by decide)), if_pos bank]
  · rename_i outside
    split
    · rename_i bank
      unfold Register.toCodeView
      rw [addShort_sub bank (by decide), if_neg (above bank.1 (by decide)), if_neg outside,
        if_pos bank]
    · rfl

end Location
end Checked
end Dwarf2
