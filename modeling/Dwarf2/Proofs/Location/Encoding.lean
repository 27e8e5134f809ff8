/-
How the operations of location expressions are written.

`Encodes` has one rule for each operation.  Numbers are told by what their bytes or groups spell, so
that all paddings are among the encodings.  What is written is read back, operation by operation:
`collect_of_encodes`.  Whatever else there is begins an operation and breaks off, or is an address
in a unit that has none: `takes_readOperands`.
-/
import Mathlib.Data.List.Forall2
import Dwarf2.Location.Operation
import Dwarf2.Proofs.Section.Taken

namespace Dwarf2
namespace Location
namespace Operation

/-- The opcodes of the operations that are supported. -/
def Known (opcode : UInt8) : Prop :=
  opcode ∈ [0x03, 0x08, 0x09, 0x0a, 0x0b, 0x0c, 0x0d, 0x10, 0x11, 0x23, 0x91, 0x93] ∨
    0x50 ≤ opcode ∧ opcode ≤ 0x8f

/-- The bytes of an operation. -/
inductive Encodes (order : ByteOrder) (addressSize : UInt8) : Operation → List UInt8 → Prop
  | addr {bytes : List UInt8} {n : UInt64} (addressable : 1 ≤ addressSize ∧ addressSize ≤ 8)
      (width : bytes.length = addressSize.toNat) (spelled : order.value bytes = n.toNat) :
      Encodes order addressSize (.addr n) (0x03 :: bytes)
  | const1u (n : UInt8) : Encodes order addressSize (.const1u n) [0x08, n]
  | const1s {byte : UInt8} {n : Int8} (spelled : (byte.toNat : Int).bmod (256 ^ 1) = n.toInt) :
      Encodes order addressSize (.const1s n) [0x09, byte]
  | const2u {bytes : List UInt8} {n : UInt16} (width : bytes.length = 2)
      (spelled : order.value bytes = n.toNat) :
      Encodes order addressSize (.const2u n) (0x0a :: bytes)
  | const2s {bytes : List UInt8} {n : Int16} (width : bytes.length = 2)
      (spelled : (order.value bytes : Int).bmod (256 ^ 2) = n.toInt) :
      Encodes order addressSize (.const2s n) (0x0b :: bytes)
  | const4u {bytes : List UInt8} {n : UInt32} (width : bytes.length = 4)
      (spelled : order.value bytes = n.toNat) :
      Encodes order addressSize (.const4u n) (0x0c :: bytes)
  | const4s {bytes : List UInt8} {n : Int32} (width : bytes.length = 4)
      (spelled : (order.value bytes : Int).bmod (256 ^ 4) = n.toInt) :
      Encodes order addressSize (.const4s n) (0x0d :: bytes)
  | constu {groups : List UInt8} {n : UInt64} (spelled : Leb128.Saturates groups n) :
      Encodes order addressSize (.constu n) (0x10 :: groups)
  | consts {groups : List UInt8} {n : Int64} (spelled : Leb128.Wraps groups n) :
      Encodes order addressSize (.consts n) (0x11 :: groups)
  | plusUconst {groups : List UInt8} {n : UInt64} (spelled : Leb128.Saturates groups n) :
      Encodes order addressSize (.plusUconst n) (0x23 :: groups)
  | reg {register : UInt8} (bank : register ≤ 31) :
      Encodes order addressSize (.reg register) [0x50 + register]
  | breg {register : UInt8} {groups : List UInt8} {n : Int64} (bank : register ≤ 31)
      (spelled : Leb128.Wraps groups n) :
      Encodes order addressSize (.breg register n) ((0x70 + register) :: groups)
  | fbreg {groups : List UInt8} {n : Int64} (spelled : Leb128.Wraps groups n) :
      Encodes order addressSize (.fbreg n) (0x91 :: groups)
  | piece {groups : List UInt8} {n : UInt64} (spelled : Leb128.Saturates groups n) :
      Encodes order addressSize (.piece n) (0x93 :: groups)
  /-- Nothing is known of the operands. -/
  | unsupported {opcode : UInt8} (unknown : ¬Known opcode) :
      Encodes order addressSize (.unsupported opcode) [opcode]

variable {s s' : Section} {order : ByteOrder} {addressSize opcode : UInt8} {op : Operation}

/-! ## Every operation is written in some way -/

/-- The operands of the operation have room where they are written. -/
def InRange (addressSize : UInt8) : Operation → Prop
  | addr n => (1 ≤ addressSize ∧ addressSize ≤ 8) ∧ n.toNat < 256 ^ addressSize.toNat
  | reg register | breg register _ => register ≤ 31
  | unsupported opcode => ¬Known opcode
  | _ => True

theorem exists_encodes (order : ByteOrder) (h : op.InRange addressSize) :
    ∃ bytes, Encodes order addressSize op bytes := by
  cases op with
  | addr n =>
    obtain ⟨bytes, width, spelled⟩ := order.exists_value _ h.2
    exact ⟨_, .addr h.1 width spelled⟩
  | const1u n => exact ⟨_, .const1u n⟩
  | const1s n =>
    have fits : (n.toInt % 256).toNat < 256 := by omega
    refine ⟨[0x09, UInt8.ofNat (n.toInt % 256).toNat], .const1s ?_⟩
    rw [toNat_ofNat_byte fits]
    exact bmod_emod_toNat n.le_toInt n.toInt_lt
  | const2u n =>
    obtain ⟨bytes, width, spelled⟩ := order.exists_value 2 n.toNat_lt
    exact ⟨_, .const2u width spelled⟩
  | const2s n =>
    obtain ⟨bytes, width, spelled⟩ := order.exists_bmod_value 2 n.le_toInt n.toInt_lt
    exact ⟨_, .const2s width spelled⟩
  | const4u n =>
    obtain ⟨bytes, width, spelled⟩ := order.exists_value 4 n.toNat_lt
    exact ⟨_, .const4u width spelled⟩
  | const4s n =>
    obtain ⟨bytes, width, spelled⟩ := order.exists_bmod_value 4 n.le_toInt n.toInt_lt
    exact ⟨_, .const4s width spelled⟩
  | constu n => exact (Leb128.exists_saturates n).imp' _ fun _ => .constu
  | consts n => exact (Leb128.exists_wraps n).imp' _ fun _ => .consts
  | plusUconst n => exact (Leb128.exists_saturates n).imp' _ fun _ => .plusUconst
  | reg register => exact ⟨_, .reg h⟩
  | breg register n => exact (Leb128.exists_wraps n).imp' _ fun _ => .breg h
  | fbreg n => exact (Leb128.exists_wraps n).imp' _ fun _ => .fbreg
  | piece n => exact (Leb128.exists_saturates n).imp' _ fun _ => .piece
  | unsupported opcode => exact ⟨_, .unsupported h⟩

theorem Encodes.inRange {bytes : List UInt8} (encoded : Encodes order addressSize op bytes) :
    op.InRange addressSize := by
  cases encoded with
  | addr addressable width spelled =>
    exact ⟨addressable, spelled ▸ width ▸ order.value_lt _⟩
  | reg bank | breg bank => exact bank
  | unsupported unknown => exact unknown
  | _ => trivial

theorem forall_inRange_iff (order : ByteOrder) (operations : List Operation) :
    (∀ op ∈ operations, op.InRange addressSize) ↔
      ∃ encodings, List.Forall₂ (Encodes order addressSize) operations encodings := by
  induction operations with
  | nil => exact ⟨fun _ => ⟨[], .nil⟩, fun _ => nofun⟩
  | cons op operations ih =>
    rw [List.forall_mem_cons, ih]
    constructor
    · rintro ⟨here, encodings, more⟩
      obtain ⟨bytes, encoded⟩ := exists_encodes order here
      exact ⟨bytes :: encodings, .cons encoded more⟩
    · rintro ⟨_, ⟨⟩⟩
      exact ⟨Encodes.inRange ‹_›, _, ‹_›⟩

/-! ## What is written is read -/

theorem readOperands_of_unknown (unknown : ¬Known opcode) :
    readOperands s addressSize opcode = pure (unsupported opcode) := by
  have outside : ¬(0x50 ≤ opcode ∧ opcode ≤ 0x8f) := fun bank => unknown (.inr bank)
  unfold readOperands
  split
  case h_13 =>
    rw [if_neg fun bank => outside ⟨bank.1, UInt8.le_trans bank.2 (by decide)⟩,
      if_neg fun bank => outside ⟨UInt8.le_trans (by decide) bank.1, bank.2⟩]
  all_goals exact absurd (.inl (by decide)) unknown

theorem readOperands_of_bank (bank : 0x50 ≤ opcode ∧ opcode ≤ 0x8f) :
    readOperands s addressSize opcode =
      if opcode ≤ 0x6f then pure (reg (opcode - 0x50))
      else s.signed >>= fun n => pure (breg (opcode - 0x70) n) := by
  unfold readOperands
  split
  case h_13 =>
    by_cases first : opcode ≤ 0x6f
    · rw [if_pos ⟨bank.1, first⟩, if_pos first]
    · have second : 0x70 ≤ opcode := Nat.lt_of_not_le first
      rw [if_neg fun bank => first bank.2, if_neg first, if_pos ⟨second, bank.2⟩]
  all_goals exact absurd bank (by decide)

theorem add_register_sub (base register : UInt8) : base + register - base = register := by
  rw [UInt8.add_comm, UInt8.add_sub_cancel]

theorem add_register_mem {base register : UInt8} (low : base ≤ 0x70) (bank : register ≤ 31) :
    base ≤ base + register ∧ base + register ≤ base + 31 := by
  have room : base.toNat ≤ 0x70 := low
  have count : register.toNat ≤ 31 := bank
  have last : (31 : UInt8).toNat = 31 := rfl
  rw [UInt8.le_iff_toNat_le, UInt8.le_iff_toNat_le, UInt8.toNat_add, UInt8.toNat_add, last]
  omega

theorem exists_register {base last : UInt8} (size : last.toNat = base.toNat + 31)
    (low : base ≤ opcode) (high : opcode ≤ last) :
    ∃ register ≤ 31, opcode = base + register := by
  refine ⟨opcode - base, ?_, by rw [UInt8.add_comm, UInt8.sub_add_cancel]⟩
  rw [UInt8.le_iff_toNat_le] at high ⊢
  rw [UInt8.toNat_sub_of_le _ _ low]
  exact Nat.sub_le_iff_le_add'.2 (size ▸ high)

theorem readOperands_reg {register : UInt8} (bank : register ≤ 31) :
    readOperands s addressSize (0x50 + register) = pure (reg register) := by
  obtain ⟨low, high⟩ : 0x50 ≤ 0x50 + register ∧ 0x50 + register ≤ 0x6f :=
    add_register_mem (by decide) bank
  rw [readOperands_of_bank ⟨low, UInt8.le_trans high (by decide)⟩, if_pos high, add_register_sub]

theorem readOperands_breg {register : UInt8} (bank : register ≤ 31) :
    readOperands s addressSize (0x70 + register) =
      s.signed >>= fun n => pure (breg register n) := by
  obtain ⟨low, high⟩ : 0x70 ≤ 0x70 + register ∧ 0x70 + register ≤ 0x8f :=
    add_register_mem (by decide) bank
  have second : ¬0x70 + register ≤ 0x6f := fun le => absurd (UInt8.le_trans low le) (by decide)
  rw [readOperands_of_bank ⟨UInt8.le_trans (by decide) low, high⟩, if_neg second, add_register_sub]

theorem reads_of_operands {operands : List UInt8}
    (reads : s.Reads (readOperands s addressSize opcode) op operands) :
    s.Reads (read s addressSize) op (opcode :: operands) :=
  (Section.reads_byte opcode).bind reads

/-- An operation is read from wherever it is written. -/
theorem reads_read {bytes : List UInt8} (encoded : Encodes s.order addressSize op bytes) :
    s.Reads (read s addressSize) op bytes := by
  cases encoded with
  | addr addressable width spelled =>
    exact reads_of_operands ((Section.reads_address addressable width spelled).then_pure _)
  | const1u n => exact reads_of_operands ((Section.reads_byte n).then_pure _)
  | @const1s byte n spelled =>
    have same : byte.toInt8 = n := by
      rw [← Int8.toInt_inj, ← spelled]
      exact toInt_toInt8 byte
    exact same ▸ reads_of_operands (((Section.reads_byte byte).map _).then_pure _)
  | const2u width spelled =>
    obtain ⟨n, value, reads⟩ := Section.reads_uint16 width
    cases UInt16.toNat_inj.1 (value.trans spelled)
    exact reads_of_operands (reads.then_pure _)
  | @const2s bytes n width spelled =>
    obtain ⟨word, value, reads⟩ := Section.reads_uint16 width
    have same : word.toInt16 = n := by
      rw [← Int16.toInt_inj, ← spelled, ← value]
      exact toInt_toInt16 word
    exact same ▸ reads_of_operands (reads.then_pure _)
  | const4u width spelled =>
    obtain ⟨n, value, reads⟩ := Section.reads_uint32 width
    cases UInt32.toNat_inj.1 (value.trans spelled)
    exact reads_of_operands (reads.then_pure _)
  | @const4s bytes n width spelled =>
    obtain ⟨word, value, reads⟩ := Section.reads_uint32 width
    have same : word.toInt32 = n := by
      rw [← Int32.toInt_inj, ← spelled, ← value]
      exact toInt_toInt32 word
    exact same ▸ reads_of_operands (reads.then_pure _)
  | constu spelled | plusUconst spelled | piece spelled =>
    exact reads_of_operands ((Section.reads_saturated spelled).then_pure _)
  | consts spelled | fbreg spelled =>
    exact reads_of_operands ((Section.reads_wrapped spelled).then_pure _)
  | reg bank =>
    refine reads_of_operands ?_
    rw [readOperands_reg bank]
    exact .pure _
  | breg bank spelled =>
    refine reads_of_operands ?_
    rw [readOperands_breg bank]
    exact (Section.reads_wrapped spelled).then_pure _
  | unsupported unknown =>
    refine reads_of_operands ?_
    rw [readOperands_of_unknown unknown]
    exact .pure _

/-! ## What is read is written -/

/-- Behind an opcode that is known stand the operands of its operation, as far as they do not break
off. -/
theorem takes_readOperands (known : Known opcode)
    (addressable : opcode = 0x03 → 1 ≤ addressSize ∧ addressSize ≤ 8) :
    s.Takes (readOperands s addressSize opcode) fun op bytes =>
      Encodes s.order addressSize op (opcode :: bytes) ∧ op.isSupported := by
  rcases known with mem | bank
  · simp only [List.mem_cons, List.not_mem_nil, or_false] at mem
    rcases mem with rfl | rfl | rfl | rfl | rfl | rfl | rfl | rfl | rfl | rfl | rfl | rfl
    · exact (Section.takes_address s (addressable rfl)).then_pure _
        fun n bytes ⟨width, spelled⟩ => ⟨.addr (addressable rfl) width spelled, rfl⟩
    · exact (Section.takes_byte s).then_pure _ fun n bytes same => ⟨same ▸ .const1u n, rfl⟩
    · refine (Section.takes_int8 s).then_pure _ ?_
      rintro _ _ ⟨byte, rfl, rfl⟩
      exact ⟨.const1s (toInt_toInt8 byte).symm, rfl⟩
    · exact (Section.takes_uint16 s).then_pure _
        fun n bytes ⟨width, spelled⟩ => ⟨.const2u width spelled, rfl⟩
    · exact (Section.takes_uint16 s).then_pure _ fun n bytes ⟨width, spelled⟩ =>
        ⟨.const2s width (spelled ▸ (toInt_toInt16 n).symm), rfl⟩
    · exact (Section.takes_uint32 s).then_pure _
        fun n bytes ⟨width, spelled⟩ => ⟨.const4u width spelled, rfl⟩
    · exact (Section.takes_uint32 s).then_pure _ fun n bytes ⟨width, spelled⟩ =>
        ⟨.const4s width (spelled ▸ (toInt_toInt32 n).symm), rfl⟩
    · exact (Section.takes_unsigned s).then_pure _ fun n bytes spelled => ⟨.constu spelled, rfl⟩
    · exact (Section.takes_signed s).then_pure _ fun n bytes spelled => ⟨.consts spelled, rfl⟩
    · exact (Section.takes_unsigned s).then_pure _
        fun n bytes spelled => ⟨.plusUconst spelled, rfl⟩
    · exact (Section.takes_signed s).then_pure _ fun n bytes spelled => ⟨.fbreg spelled, rfl⟩
    · exact (Section.takes_unsigned s).then_pure _ fun n bytes spelled => ⟨.piece spelled, rfl⟩
  · by_cases first : opcode ≤ 0x6f
    · obtain ⟨register, inBank, rfl⟩ := exists_register rfl bank.1 first
      rw [readOperands_reg inBank]
      exact .pure ⟨.reg inBank, rfl⟩
    · have low : 0x70 ≤ opcode := Nat.lt_of_not_le first
      obtain ⟨register, inBank, rfl⟩ := exists_register rfl low bank.2
      rw [readOperands_breg inBank]
      exact (Section.takes_signed s).then_pure _
        fun n bytes spelled => ⟨.breg inBank spelled, rfl⟩

theorem run_next? (s : Section) (addressSize : UInt8) (start : Nat) :
    (next? s addressSize).run start =
      if s.bytes.size ≤ start then .ok (none, start)
      else ((read s addressSize).run start).map fun r => (some r.1, r.2) := by
  rw [next?, Section.run_untilEnd, Read.run_map]

theorem collect_rest {operations : List Operation} {encodings : List (List UInt8)}
    (encoded : List.Forall₂ (Encodes s.order addressSize) operations encodings) {start : Nat}
    (there : start ≤ s.bytes.size) (rest : s.bytes.rest start = encodings.flatten) :
    Read.collect (next? s addressSize) s.bytes.size (next?_itemsProgress s addressSize) start =
      (operations, .ok s.bytes.size) := by
  induction encoded generalizing start with
  | nil =>
    have done : s.bytes.size ≤ start := Bytes.rest_eq_nil_iff.1 rest
    rw [Read.collect_eq, run_next?, if_pos done, Nat.le_antisymm there done]
  | @cons op encoding operations encodings here more ih =>
    have holds := Bytes.holds_of_rest there rest
    have run := reads_read here start holds
    have begun : ¬s.bytes.size ≤ start :=
      Nat.not_le.2 (read_progresses s addressSize start _ _ run).1
    rw [Read.collect_eq, run_next?, if_neg begun, run]
    simp only [Except.map]
    rw [ih holds.le_size (Bytes.rest_add rest)]

theorem run_at {operations : List Operation} {encodings : List (List UInt8)}
    (encoded : List.Forall₂ (Encodes s.order addressSize) operations encodings)
    (bytes : s.bytes = encodings.flatten.toArray) (i : Nat) (inside : i < operations.length) :
    (read s addressSize).run (encodings.take i).flatten.length =
      .ok (operations[i], (encodings.take (i + 1)).flatten.length) := by
  have inside' : i < encodings.length := encoded.length_eq ▸ inside
  have parts : encodings.flatten =
      (encodings.take i).flatten ++ encodings[i] ++ (encodings.drop (i + 1)).flatten := by
    rw [List.append_assoc, ← List.flatten_cons, ← List.drop_eq_getElem_cons inside',
      ← List.flatten_append, List.take_append_drop]
  have holds : s.bytes.Holds (encodings.take i).flatten.length encodings[i] :=
    ⟨_, _, rfl, by rw [bytes, parts]⟩
  have run := reads_read (encoded.get inside inside') _ holds
  rw [List.take_succ_eq_append_getElem inside', List.flatten_append, List.flatten_singleton,
    List.length_append]
  exact run

/-- Operations that are written one after another are all read, and each read takes the bytes of its
own operation.  Those whose operands have room can be written. -/
theorem collect_of_encodes (kind : SectionKind) (order : ByteOrder) (addressSize : UInt8)
    (operations : List Operation) :
    ((∀ op ∈ operations, op.InRange addressSize) ↔
        ∃ encodings, List.Forall₂ (Encodes order addressSize) operations encodings) ∧
      ∀ encodings, List.Forall₂ (Encodes order addressSize) operations encodings →
        let s : Section := ⟨kind, order, encodings.flatten.toArray⟩
        collect s addressSize = (operations, .ok ()) ∧
          ∀ i (inside : i < operations.length),
            (read s addressSize).run (encodings.take i).flatten.length =
              .ok (operations[i], (encodings.take (i + 1)).flatten.length) := by
  refine ⟨forall_inRange_iff order operations, ?_⟩
  intro encodings encoded s
  have all := collect_rest (s := s) encoded (Nat.zero_le _) rfl
  refine ⟨?_, run_at encoded rfl⟩
  rw [collect, all]
  rfl

/-- The number is padded by a group, and nothing is known of the operation behind it. -/
theorem collect_padded :
    let operations := [plusUconst 8, unsupported 0x06, breg 5 (-8), addr 0x1000]
    let encodings := [[0x23, 0x88, 0x00], [0x06], [0x75, 0x78], [0x03, 0x10, 0x00]]
    ((∀ op ∈ operations, op.InRange 2) ∧
        List.Forall₂ (Encodes .big 2) operations encodings) ∧
      collect ⟨.information, .big, encodings.flatten.toArray⟩ 2 = (operations, .ok ()) := by
  intro operations encodings
  have encoded : List.Forall₂ (Encodes .big 2) operations encodings :=
    .cons (.plusUconst ⟨.cons (by decide) (.single (by decide)), by decide⟩)
      (.cons (.unsupported (by unfold Known; decide))
        (.cons (.breg (by decide) ⟨.single (by decide), by decide⟩)
          (.cons (.addr (by decide) rfl (by decide)) .nil)))
  have all := collect_of_encodes .information .big 2 operations
  exact ⟨⟨all.1.2 ⟨_, encoded⟩, encoded⟩, (all.2 encodings encoded).1⟩

end Operation
end Location
end Dwarf2
