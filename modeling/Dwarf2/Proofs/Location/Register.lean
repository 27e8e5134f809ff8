/-
Registers that an expression names when it has named one already.

The storage of a location is settled by the first operation that names one.  What the later ones
add to a register is pushed all the same, and then it is the offset.  So a later operation is worth
what pushing its number is: `Trims` lists the ways to take registers out of an expression, and
`ofExpression_of_trims` says what is left of the location.
-/
import Dwarf2.Proofs.Location.Operation

namespace Dwarf2
namespace Location

namespace Operation

/-- The operation says where the value is. -/
def namesStorage : Operation → Bool
  | reg _ | breg _ _ | fbreg _ => true
  | _ => false

/-- What an operation that names a storage pushes. -/
def added? : Operation → Option Int64
  | breg _ n | fbreg n => some n
  | _ => none

end Operation

/-- The operations from a position on can be written as the bytes.  Once a storage is settled, an
operation that names one may be left out if it pushes nothing, and may be written as a constant if
it does.  Where `offsets` need not be kept, it may be left out at any rate. -/
inductive Trims (s : Section) (addressSize : UInt8) (offsets : Bool) :
    Bool → Nat → List UInt8 → Prop
  /-- The rest stays, and may be no operations at all. -/
  | rest (settled : Bool) (start : Nat) :
      Trims s addressSize offsets settled start (s.bytes.rest start)
  | keep {settled : Bool} {start next : Nat} {op : Operation} {written : List UInt8}
      (read : (Operation.read s addressSize).run start = .ok (op, next))
      (more : Trims s addressSize offsets (settled || op.namesStorage) next written) :
      Trims s addressSize offsets settled start (s.bytes.between start next ++ written)
  | drop {start next : Nat} {op : Operation} {written : List UInt8}
      (read : (Operation.read s addressSize).run start = .ok (op, next))
      (names : op.namesStorage) (nothing : offsets → op.added? = none)
      (more : Trims s addressSize offsets true next written) :
      Trims s addressSize offsets true start written
  | push {start next : Nat} {op : Operation} {n : Int64} {groups written : List UInt8}
      (read : (Operation.read s addressSize).run start = .ok (op, next))
      (names : op.namesStorage) (added : op.added? = some n)
      (spelled : Leb128.SpellsSigned groups n.toInt)
      (more : Trims s addressSize offsets true next written) :
      Trims s addressSize offsets true start ((0x11 :: groups) ++ written)

variable {s s' : Section} {addressSize : UInt8} {offsets settled : Bool} {l l' : Location}
  {op : Operation}

theorem reads_consts {groups : List UInt8} {n : Int64}
    (spelled : Leb128.SpellsSigned groups n.toInt) :
    s.Reads (Operation.read s addressSize) (.consts n) (0x11 :: groups) :=
  (Section.reads_byte 0x11).bind ((Section.reads_signed spelled).then_pure _)

/-! ## What registers do to a location -/

/-- The same location, but for the offset if that is not kept. -/
structure Same (offsets : Bool) (l l' : Location) : Prop where
  storage : l'.storage = l.storage
  deref : l'.deref = l.deref
  offset : offsets → l'.offset = l.offset

namespace Same

theorem refl (offsets : Bool) (l : Location) : Same offsets l l :=
  ⟨rfl, rfl, fun _ => rfl⟩

theorem settle (h : Same offsets l l') (storage : Storage) (deref : Bool) :
    Same offsets (l.settle storage deref) (l'.settle storage deref) := by
  unfold Location.settle
  rw [h.storage]
  split
  · exact ⟨rfl, rfl, h.offset⟩
  · exact h

theorem push (h : Same offsets l l') (n : Int64) : Same offsets (l.push n) (l'.push n) :=
  ⟨h.storage, h.deref, fun _ => rfl⟩

theorem step (h : Same offsets l l') (op : Operation) :
    Same offsets (l.step op) (l'.step op) := by
  cases op with
  | plusUconst n =>
    exact ⟨h.storage, h.deref, fun kept => congrArg (· + n.toInt64) (h.offset kept)⟩
  | reg r => exact h.settle _ _
  | breg r n => exact (h.settle _ _).push n
  | fbreg n => exact (h.settle _ _).push n
  | piece | unsupported => exact h
  | _ => exact h.push _

end Same

theorem settle_of_settled (settled : l.storage ≠ .direct) (storage : Storage) (deref : Bool) :
    l.settle storage deref = l :=
  if_neg settled

theorem step_of_settled (settled : l.storage ≠ .direct) (names : op.namesStorage) :
    l.step op = (op.added?.map l.push).getD l := by
  cases op with
  | reg | breg | fbreg =>
    simp only [step, settle_of_settled settled]
    rfl
  | _ => cases names

theorem storage_settle_ne (l : Location) {storage : Storage} (other : storage ≠ .direct)
    (deref : Bool) : (l.settle storage deref).storage ≠ .direct := by
  unfold settle
  split
  · exact other
  · assumption

theorem storage_step_ne (settles : l.storage ≠ .direct ∨ op.namesStorage) :
    (l.step op).storage ≠ .direct := by
  have register (r : UInt8) : Storage.register r.toUInt16 ≠ .direct := nofun
  have frameBase : Storage.frameBase ≠ .direct := nofun
  cases op with
  | reg r => exact l.storage_settle_ne (register r) false
  | breg r n => exact l.storage_settle_ne (register r) true
  | fbreg n => exact l.storage_settle_ne frameBase true
  | _ => exact settles.resolve_right nofun

theorem Same.later (h : Same offsets l l') (settled : l.storage ≠ .direct)
    (names : op.namesStorage) (nothing : offsets → op.added? = none) :
    Same offsets (l.step op) l' := by
  rw [step_of_settled settled names]
  cases added : op.added? with
  | none => exact h
  | some n =>
    refine ⟨h.storage, h.deref, fun kept => ?_⟩
    rw [nothing kept] at added
    cases added

/-! ## Expressions -/

theorem isSupported_of_namesStorage (names : op.namesStorage) : op.isSupported := by
  cases op with
  | unsupported => cases names
  | _ => rfl

theorem isSupported_consts (n : Int64) : (Operation.consts n).isSupported :=
  rfl

theorem Same.evaluate (same : Same offsets l l') (s : Section) (addressSize : UInt8)
    (start : Nat) :
    Option.Rel (Same offsets) (evaluate s addressSize l start)
      (evaluate s addressSize l' start) := by
  unfold Location.evaluate
  cases ((Operation.expression s addressSize).value start).toOption with
  | none => exact .none
  | some operations =>
    refine .some (List.foldl_rel same fun op _ l l' same => ?_)
    exact same.step op

/-- The two evaluations fail alike, or come to the same location. -/
theorem evaluate_of_trims (order : s'.order = s.order) {start start' : Nat} {written : List UInt8}
    (trims : Trims s addressSize offsets settled start written) (there : start ≤ s.bytes.size)
    (there' : start' ≤ s'.bytes.size) (rest : s'.bytes.rest start' = written)
    (same : Same offsets l l') (known : settled → l.storage ≠ .direct) :
    Option.Rel (Same offsets) (evaluate s addressSize l start)
      (evaluate s' addressSize l' start') := by
  have inside {start next : Nat} {op : Operation} (there : start ≤ s.bytes.size)
      (read : (Operation.read s addressSize).run start = .ok (op, next)) : next ≤ s.bytes.size :=
    (Operation.carries_read order addressSize start op next there read).1
  induction trims generalizing start' l l' with
  | rest settled start =>
    rw [evaluate_alike order addressSize l' there there' rest]
    exact same.evaluate s addressSize start
  | @keep settled start next op written read more ih =>
    obtain ⟨next', read', there', rest⟩ :=
      (Operation.carries_read order addressSize).run_of_rest there there' read rest
    rw [evaluate_ok read, evaluate_ok read']
    split
    · refine ih (inside there read) there' rest (same.step op) fun settled' => ?_
      exact storage_step_ne ((Bool.or_eq_true_iff.1 settled').imp_left known)
    · exact .some same
  | @drop start next op written read names nothing more ih =>
    have settled := known rfl
    rw [evaluate_ok read, if_pos (isSupported_of_namesStorage names)]
    refine ih (inside there read) there' rest (same.later settled names nothing) fun _ => ?_
    exact storage_step_ne (.inl settled)
  | @push start next op n groups written read names added spelled more ih =>
    have settled := known rfl
    have holds := Bytes.holds_of_rest there' rest
    rw [evaluate_ok read, if_pos (isSupported_of_namesStorage names),
      evaluate_ok (reads_consts spelled _ holds), if_pos (isSupported_consts n)]
    have pushed : l.step op = l.push n := by
      rw [step_of_settled settled names, added]
      rfl
    rw [pushed]
    exact ih (inside there read) holds.le_size (Bytes.rest_add rest) (same.push n) fun _ => settled

/-- The first register of an expression is the one that counts.  Where the later ones are taken
out, the value is in the same place as before: its offset too, if what they push is pushed in their
stead. -/
theorem ofExpression_of_trims {order : ByteOrder} {expression expression' : Bytes}
    (trims : Trims ⟨.information, order, expression⟩ addressSize offsets false 0
      expression'.toList) :
    Option.Rel (Same offsets) (ofExpression order addressSize expression).toOption
      (ofExpression order addressSize expression').toOption := by
  rw [toOption_ofExpression, toOption_ofExpression]
  refine evaluate_of_trims ?_ trims (Nat.zero_le _) (Nat.zero_le _) ?_ (.refl _ _) nofun
  · rfl
  · rfl

namespace Doubled

/-- A value in register 0, and then eight bytes above register 1. -/
def expression : Bytes :=
  #[0x50, 0x71, 8]

def written : Section :=
  ⟨.information, .little, expression⟩

theorem reads_first (s : Section) : s.Reads (Operation.read s 4) (.reg 0) [0x50] :=
  (Section.reads_byte 0x50).bind (.pure _)

theorem read_first : (Operation.read written 4).run 0 = .ok (.reg 0, 1) :=
  reads_first written 0 ⟨[], [0x71, 8], rfl, rfl⟩

theorem spelled : Leb128.SpellsSigned [8] (8 : Int64).toInt :=
  ⟨.single (by decide), by decide⟩

theorem read_second : (Operation.read written 4).run 1 = .ok (.breg 1 8, 3) := by
  have reads : written.Reads (Operation.read written 4) (.breg 1 8) [0x71, 8] :=
    (Section.reads_byte 0x71).bind ((Section.reads_signed spelled).then_pure _)
  exact reads 1 ⟨[0x50], [], rfl, rfl⟩

/-- The second register is left out. -/
theorem omits : Trims written 4 false false 0 [0x50] :=
  .keep read_first (.drop read_second rfl nofun (.rest true 3))

/-- Of the second register there remains the constant. -/
theorem pushes : Trims written 4 true false 0 [0x50, 0x11, 8] :=
  .keep read_first (.push read_second rfl rfl spelled (.rest true 3))

end Doubled

theorem ofExpression_doubled :
    Trims Doubled.written 4 true false 0 [0x50, 0x11, 8] ∧
      Option.Rel (Same true) (ofExpression .little 4 Doubled.expression).toOption
        (ofExpression .little 4 #[0x50, 0x11, 8]).toOption :=
  ⟨Doubled.pushes, ofExpression_of_trims Doubled.pushes⟩

/-- The offset is another when the second register is left out: it was not just ignored. -/
theorem ofExpression_omitted :
    Trims Doubled.written 4 false false 0 [0x50] ∧
      (ofExpression .little 4 Doubled.expression).toOption = some ⟨.register 0, false, 8⟩ ∧
      (ofExpression .little 4 #[0x50]).toOption = some ⟨.register 0, false, 0⟩ := by
  let alone : Section := ⟨.information, .little, #[0x50]⟩
  have read : (Operation.read alone 4).run 0 = .ok (.reg 0, 1) :=
    Doubled.reads_first alone 0 ⟨[], [], rfl, rfl⟩
  have supported : (Operation.reg 0).isSupported ∧ (Operation.breg 1 8).isSupported :=
    ⟨rfl, rfl⟩
  have both : evaluate Doubled.written 4 (constant 0) 0 = some ⟨.register 0, false, 8⟩ := by
    rw [evaluate_ok Doubled.read_first, if_pos supported.1, evaluate_ok Doubled.read_second,
      if_pos supported.2, evaluate_done (Nat.le_refl 3)]
    rfl
  have one : evaluate alone 4 (constant 0) 0 = some ⟨.register 0, false, 0⟩ := by
    rw [evaluate_ok read, if_pos supported.1, evaluate_done (Nat.le_refl 1)]
    rfl
  exact ⟨Doubled.omits, (toOption_ofExpression .little 4 Doubled.expression).trans both,
    (toOption_ofExpression .little 4 #[0x50]).trans one⟩

end Location
end Dwarf2
