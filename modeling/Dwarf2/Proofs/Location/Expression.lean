/-
The location that an expression describes, told by its operations.

`Parses` takes an expression apart: its operations, and what stands where they end.  Every
expression can be taken apart, and `ofAttribute_block` says what it describes then.  The place is
the first that an operation names.  The stack only grows, so that the offset is what was pushed
last, with what was added to it since.
-/
import Mathlib.Data.List.DropRight
import Dwarf2.Proofs.Location.Encoding
import Dwarf2.Proofs.Location.Operation

namespace Dwarf2
namespace Location

/-! ## Expressions and their operations -/

/-- What stands where the operations of an expression end. -/
inductive Ending
  /-- Nothing. -/
  | complete
  /-- An operation that is not supported. -/
  | unsupported
  /-- An operation that breaks off. -/
  | cut
  /-- An address, in a unit that has addresses of no known size. -/
  | unaddressable
deriving DecidableEq

/-- There is nothing to tell of an expression where an operation cannot be read. -/
def Ending.told (l : Location) : Ending → Option Location
  | complete | unsupported => some l
  | cut | unaddressable => none

/-- The operations of an expression up to the first that is not supported. -/
inductive Parses (order : ByteOrder) (addressSize : UInt8) :
    List UInt8 → List Operation → Ending → Prop
  | complete : Parses order addressSize [] [] .complete
  /-- It does not matter what comes behind. -/
  | unsupported {opcode : UInt8} {rest : List UInt8} (unknown : ¬Operation.Known opcode) :
      Parses order addressSize (opcode :: rest) [] .unsupported
  | cut {op : Operation} {front back : List UInt8} (begun : front ≠ []) (short : back ≠ [])
      (encoded : Operation.Encodes order addressSize op (front ++ back)) :
      Parses order addressSize front [] .cut
  | unaddressable {rest : List UInt8} (size : ¬(1 ≤ addressSize ∧ addressSize ≤ 8)) :
      Parses order addressSize (0x03 :: rest) [] .unaddressable
  | cons {op : Operation} {front rest : List UInt8} {operations : List Operation}
      {ending : Ending} (encoded : Operation.Encodes order addressSize op front)
      (supported : op.isSupported) (more : Parses order addressSize rest operations ending) :
      Parses order addressSize (front ++ rest) (op :: operations) ending

variable {s : Section} {order : ByteOrder} {addressSize : UInt8} {l : Location}
  {bytes : List UInt8} {operations : List Operation} {ending : Ending} {start : Nat}

theorem exists_parses_rest (s : Section) (addressSize : UInt8) (start : Nat) :
    ∃ operations ending, Parses s.order addressSize (s.bytes.rest start) operations ending := by
  by_cases done : s.bytes.size ≤ start
  · rw [Bytes.rest_eq_nil_iff.2 done]
    exact ⟨[], .complete, .complete⟩
  have inside : start < s.bytes.size := Nat.lt_of_not_le done
  rw [Bytes.rest_eq_cons inside]
  generalize s.bytes[start] = opcode
  by_cases known : Operation.Known opcode
  case neg => exact ⟨[], .unsupported, .unsupported known⟩
  by_cases blind : opcode = 0x03 ∧ ¬(1 ≤ addressSize ∧ addressSize ≤ 8)
  · rw [blind.1]
    exact ⟨[], .unaddressable, .unaddressable blind.2⟩
  -- The size of addresses is known, or the operation is none.
  have takes := Operation.takes_readOperands (s := s) known fun address =>
    Decidable.not_not.1 fun size => blind ⟨address, size⟩
  match run : (Operation.readOperands s addressSize opcode).run (start + 1) with
  | .error e =>
    obtain ⟨op, back, short, encoded, -⟩ := takes.breaksOff _ e inside run
    exact ⟨[], .cut, .cut (List.cons_ne_nil _ _) short encoded⟩
  | .ok (op, next) =>
    have forward := Read.le_of_run run
    obtain ⟨le, encoded, supported⟩ := takes.finds _ op next inside run
    obtain ⟨operations, ending, more⟩ := exists_parses_rest s addressSize next
    rw [← Bytes.between_append_rest forward le]
    exact ⟨op :: operations, ending, .cons encoded supported more⟩
termination_by s.bytes.size - start

theorem exists_parses (order : ByteOrder) (addressSize : UInt8) (bytes : List UInt8) :
    ∃ operations ending, Parses order addressSize bytes operations ending :=
  exists_parses_rest ⟨.information, order, bytes.toArray⟩ addressSize 0

theorem Parses.append_unsupported {opcode : UInt8}
    (parses : Parses order addressSize bytes operations ending) (complete : ending = .complete)
    (unknown : ¬Operation.Known opcode) (rest : List UInt8) :
    Parses order addressSize (bytes ++ opcode :: rest) operations .unsupported := by
  induction parses with
  | complete => exact .unsupported unknown
  | cons encoded supported _ ih =>
    rw [List.append_assoc]
    exact .cons encoded supported (ih complete)
  | unsupported | cut | unaddressable => cases complete

/-- An operation is not read where it breaks off.  It would be read, with the same end, if there
were more. -/
theorem error_of_cut {op : Operation} {front back : List UInt8} (short : back ≠ [])
    (encoded : Operation.Encodes s.order addressSize op (front ++ back))
    (there : start ≤ s.bytes.size) (rest : s.bytes.rest start = front) :
    ∃ e, (Operation.read s addressSize).run start = .error e := by
  match run : (Operation.read s addressSize).run start with
  | .error e => exact ⟨e, rfl⟩
  | .ok (other, next) =>
    -- If it were read, so it would be where the rest of the operation is there too.
    let whole : Section := ⟨s.kind, s.order, s.bytes ++ back.toArray⟩
    have holds : whole.bytes.Holds start (front ++ back) := by
      refine ⟨s.bytes.toList.take start, [], ?_, ?_⟩
      · simpa using there
      · rw [← rest, List.append_nil, ← List.append_assoc, Bytes.rest, List.take_append_drop]
        simp [whole]
    have carries := Operation.carries_read (show whole.order = s.order from rfl) addressSize
    obtain ⟨inside, reads⟩ := carries start other next there run
    have within : s.bytes.between start next ++ s.bytes.rest next = front :=
      (Bytes.between_append_rest (Read.le_of_run run) inside).trans rest
    rw [← within, List.append_assoc] at holds encoded
    have run' := Operation.reads_read (s := whole) encoded start holds
    rw [reads start holds.left] at run'
    have same := (Prod.mk.inj (Except.ok.inj run')).2
    rw [List.length_append, List.length_append] at same
    exact absurd (List.length_eq_zero_iff.1 (by omega)) short

theorem error_of_unaddressable (size : ¬(1 ≤ addressSize ∧ addressSize ≤ 8))
    (holds : s.bytes.Holds start [0x03]) :
    ∃ e, (Operation.read s addressSize).run start = .error e := by
  have opcode := Section.reads_byte 0x03 start holds
  have operand : Operation.readOperands s addressSize 0x03 =
      s.address addressSize >>= fun n => pure (.addr n) := rfl
  rw [Operation.read, Read.run_bind, opcode]
  simp only [Except.bind]
  rw [operand, Section.address, if_neg size]
  exact ⟨_, rfl⟩

theorem evaluate_of_parses (parses : Parses s.order addressSize bytes operations ending)
    (there : start ≤ s.bytes.size) (rest : s.bytes.rest start = bytes) :
    evaluate s addressSize l start = ending.told (operations.foldl step l) := by
  induction parses generalizing start l with
  | complete => exact evaluate_done (Bytes.rest_eq_nil_iff.1 rest)
  | @unsupported opcode behind unknown =>
    have holds : s.bytes.Holds start [opcode] := Bytes.holds_of_rest there rest
    exact evaluate_ok (Operation.reads_read (.unsupported unknown) start holds)
  | cut begun short encoded =>
    have more : ¬s.bytes.size ≤ start := by
      rwa [← Bytes.rest_eq_nil_iff, rest]
    obtain ⟨e, run⟩ := error_of_cut short encoded there rest
    exact evaluate_error more run
  | @unaddressable behind size =>
    have more : ¬s.bytes.size ≤ start := by
      rw [← Bytes.rest_eq_nil_iff, rest]
      exact List.cons_ne_nil _ _
    have holds : s.bytes.Holds start [0x03] := Bytes.holds_of_rest there rest
    obtain ⟨e, run⟩ := error_of_unaddressable size holds
    exact evaluate_error more run
  | @cons op front behind operations ending encoded supported more ih =>
    have holds := Bytes.holds_of_rest there rest
    rw [evaluate_ok (Operation.reads_read encoded start holds), if_pos supported]
    exact ih holds.le_size (Bytes.rest_add rest)

/-! ## What the operations say -/

/-- Where an operation says that the value is, and whether its address is there instead. -/
def Operation.place? : Operation → Option (Storage × Bool)
  | reg register => some (.register register.toUInt16, false)
  | breg register _ => some (.register register.toUInt16, true)
  | fbreg _ => some (.frameBase, true)
  | _ => none

/-- The number that an operation pushes. -/
def Operation.pushed? : Operation → Option Int
  | addr n | constu n => some n.toNat
  | const1u n => some n.toNat
  | const1s n => some n.toInt
  | const2u n => some n.toNat
  | const2s n => some n.toInt
  | const4u n => some n.toNat
  | const4s n => some n.toInt
  | consts n | breg _ n | fbreg n => some n.toInt
  | _ => none

/-- The number that an operation adds to the last one. -/
def Operation.added : Operation → Int
  | plusUconst n => n.toNat
  | _ => 0

/-- The place that is named first. -/
def placeOf (operations : List Operation) : Storage × Bool :=
  (operations.findSome? Operation.place?).getD (.direct, false)

/-- The number that is pushed last, or the zero that the stack begins with. -/
def lastPushed (operations : List Operation) : Int :=
  (operations.filterMap Operation.pushed?).getLast?.getD 0

/-- What is added to the number that is pushed last. -/
def addedSince (operations : List Operation) : Int :=
  ((operations.rtakeWhile (·.pushed?.isNone)).map Operation.added).sum

theorem toInt64_eq_ofInt (n : UInt64) : n.toInt64 = Int64.ofInt n.toNat := by
  rw [← Int64.toInt_inj, Leb128.toInt_toInt64, Int64.toInt_ofInt]
  rfl

theorem offset_settle (l : Location) (storage : Storage) (deref : Bool) :
    (l.settle storage deref).offset = l.offset := by
  unfold settle
  split <;> rfl

theorem offset_step (l : Location) (op : Operation) :
    (l.step op).offset = (op.pushed?.map Int64.ofInt).getD (l.offset + Int64.ofInt op.added) := by
  have still (n : Int64) : n + Int64.ofInt 0 = n := Int64.add_zero n
  cases op with
  | addr n | constu n => exact toInt64_eq_ofInt n
  | const1u n | const2u n | const4u n => exact toInt64_eq_ofInt n.toUInt64
  | const1s n => exact (Int64.ofInt_int8ToInt n).symm
  | const2s n => exact (Int64.ofInt_int16ToInt n).symm
  | const4s n => exact (Int64.ofInt_int32ToInt n).symm
  | consts n | breg _ n | fbreg n => exact (Int64.ofInt_toInt n).symm
  | plusUconst n => exact congrArg (l.offset + ·) (toInt64_eq_ofInt n)
  | reg register => exact (l.offset_settle _ _).trans (still _).symm
  | piece | unsupported => exact (still _).symm

theorem offset_foldl (operations : List Operation) :
    (operations.foldl step (constant 0)).offset =
      Int64.ofInt (lastPushed operations + addedSince operations) := by
  induction operations using List.reverseRecOn with
  | nil => rfl
  | append_singleton operations op ih =>
    rw [List.foldl_append, List.foldl_cons, List.foldl_nil, offset_step, ih, ← Int64.ofInt_add]
    unfold lastPushed addedSince
    rw [List.filterMap_append, List.rtakeWhile_concat]
    cases pushed : op.pushed? with
    | none => simp [pushed, Int.add_assoc]
    | some n => simp [pushed]

/-- Where the value is, without the offset. -/
def place (l : Location) : Storage × Bool :=
  (l.storage, l.deref)

theorem place_settle (l : Location) (storage : Storage) (deref : Bool) :
    (l.settle storage deref).place = if l.storage = .direct then (storage, deref) else l.place := by
  unfold settle
  split <;> rfl

theorem place_step (l : Location) (op : Operation) :
    (l.step op).place = if l.storage = .direct then op.place?.getD l.place else l.place := by
  cases op with
  | reg register => exact l.place_settle _ _
  | breg register n => exact l.place_settle _ _
  | fbreg n => exact l.place_settle _ _
  | _ => exact (ite_self l.place).symm

theorem ne_direct_of_place? {op : Operation} {p : Storage × Bool} (names : op.place? = some p) :
    p.1 ≠ .direct := by
  cases op with
  | reg | breg | fbreg =>
    cases names
    exact nofun
  | _ => cases names

theorem place_foldl_of_settled (settled : l.storage ≠ .direct) (operations : List Operation) :
    (operations.foldl step l).place = l.place := by
  induction operations generalizing l with
  | nil => rfl
  | cons op operations ih =>
    have kept : (l.step op).place = l.place := by rw [place_step, if_neg settled]
    have kept' : (l.step op).storage = l.storage := congrArg Prod.fst kept
    rw [List.foldl_cons, ih (kept' ▸ settled), kept]

theorem place_foldl (direct : l.storage = .direct) (operations : List Operation) :
    (operations.foldl step l).place = (operations.findSome? Operation.place?).getD l.place := by
  induction operations generalizing l with
  | nil => rfl
  | cons op operations ih =>
    have first : (l.step op).place = op.place?.getD l.place := by rw [place_step, if_pos direct]
    have storage : (l.step op).storage = (op.place?.getD l.place).1 := congrArg Prod.fst first
    rw [List.foldl_cons, List.findSome?_cons]
    cases names : op.place? with
    | none =>
      rw [names] at first storage
      rw [ih (storage.trans direct), first]
      rfl
    | some p =>
      rw [names] at first storage
      rw [place_foldl_of_settled (storage ▸ ne_direct_of_place? names), first]

theorem toOption_eq_none_iff {α : Type} {r : Except Error α} :
    r.toOption = none ↔ ∃ e, r = .error e := by
  cases r <;> simp [Except.toOption]

theorem toOption_eq_some_iff {α : Type} {r : Except Error α} {a : α} :
    r.toOption = some a ↔ r = .ok a := by
  cases r <;> simp [Except.toOption]

/-- The location that the operations describe, if nothing else is wrong with the expression. -/
theorem ofOperations_eq (operations : List Operation) :
    ofOperations operations =
      ⟨(placeOf operations).1, (placeOf operations).2,
        Int64.ofInt (lastPushed operations + addedSince operations)⟩ := by
  have place : (ofOperations operations).place = placeOf operations :=
    place_foldl rfl operations
  rw [← place, ← offset_foldl]
  rfl

theorem toOption_ofAttribute_block (name : AttributeName) (form : Form)
    (parses : Parses order addressSize bytes operations ending) :
    (ofAttribute order addressSize ⟨name, form, .block bytes.toArray⟩).toOption =
      ending.told (ofOperations operations) := by
  have block : ofAttribute order addressSize ⟨name, form, .block bytes.toArray⟩ =
      ofExpression order addressSize bytes.toArray := by
    unfold ofAttribute
    cases form.isConstant <;> rfl
  rw [block, toOption_ofExpression]
  exact evaluate_of_parses parses (Nat.zero_le _) rfl

/-- Every expression can be taken apart.  It describes nothing if an operation cannot be read,
because it breaks off or is an address of no known size.  Otherwise the place is that of the first
operation that names one, and the offset is the number that was pushed last, with what was added to
it since, in 64 bits.  What comes behind an operation that is not supported makes no difference. -/
theorem ofAttribute_block (order : ByteOrder) (addressSize : UInt8) (name : AttributeName)
    (form : Form) :
    let describes (expression : List UInt8) :=
      ofAttribute order addressSize ⟨name, form, .block expression.toArray⟩
    (∀ expression, ∃ operations ending, Parses order addressSize expression operations ending) ∧
      ∀ expression operations ending, Parses order addressSize expression operations ending →
        ((∃ e, describes expression = .error e) ↔ ending = .cut ∨ ending = .unaddressable) ∧
        (ending = .complete ∨ ending = .unsupported →
          describes expression =
            .ok ⟨(placeOf operations).1, (placeOf operations).2,
              Int64.ofInt (lastPushed operations + addedSince operations)⟩) ∧
        (ending = .complete → ∀ opcode rest, ¬Operation.Known opcode →
          describes (expression ++ opcode :: rest) = describes expression) := by
  intro describes
  refine ⟨exists_parses order addressSize, fun expression operations ending parses => ?_⟩
  have told : (describes expression).toOption = _ := toOption_ofAttribute_block name form parses
  rw [ofOperations_eq] at told
  refine ⟨?_, fun ends => ?_, fun complete opcode rest unknown => ?_⟩
  · rw [← toOption_eq_none_iff, told]
    cases ending <;> simp [Ending.told]
  · rw [← toOption_eq_some_iff, told]
    rcases ends with rfl | rfl <;> rfl
  · have more := toOption_ofAttribute_block name form
      (parses.append_unsupported complete unknown rest)
    subst complete
    rw [ofOperations_eq] at more
    exact (toOption_eq_some_iff.1 more).trans (toOption_eq_some_iff.1 told).symm

/-- The value is four bytes below the address in register 5, whatever the operation behind it means.
Without the number to add, the expression breaks off. -/
theorem ofAttribute_below_register :
    let parses := Parses .little 4
    (parses [0x75, 0x78, 0x23, 0x04, 0x06, 0xff] [.breg 5 (-8), .plusUconst 4] .unsupported ∧
        ofAttribute .little 4 ⟨.location, .block1, .block #[0x75, 0x78, 0x23, 0x04, 0x06, 0xff]⟩ =
          .ok ⟨.register 5, true, -4⟩) ∧
      parses [0x75, 0x78, 0x23] [.breg 5 (-8)] .cut ∧
        ∃ e, ofAttribute .little 4 ⟨.location, .block1, .block #[0x75, 0x78, 0x23]⟩ = .error e := by
  have register : Operation.Encodes .little 4 (.breg 5 (-8)) [0x75, 0x78] :=
    .breg (by decide) ⟨.single (by decide), by decide⟩
  have addition : Operation.Encodes .little 4 (.plusUconst 4) [0x23, 0x04] :=
    .plusUconst ⟨.single (by decide), by decide⟩
  have unknown : ¬Operation.Known 0x06 := by
    unfold Operation.Known
    decide
  have whole : Parses .little 4 [0x75, 0x78, 0x23, 0x04, 0x06, 0xff] _ _ :=
    .cons register rfl (.cons addition rfl (.unsupported unknown))
  have short : Parses .little 4 [0x75, 0x78, 0x23] _ _ :=
    .cons register rfl (.cut (List.cons_ne_nil _ _) (List.cons_ne_nil _ _) addition)
  have told := (ofAttribute_block .little 4 .location .block1).2
  exact ⟨⟨whole, (told _ _ _ whole).2.1 (.inr rfl)⟩, short, (told _ _ _ short).1.2 (.inl rfl)⟩

end Location
end Dwarf2
