/-
How the instructions of line number programs are written.

Which opcodes are special, and how many operands an unknown standard one has, is told by the header,
so `Encodes` is about the programs of one header.  Behind the opcode zero stands a length.  It is
only gone by where nothing else is known of the instruction, and so it may be any but zero for the
others.

What is written is read back: `readAll_written`.  And what is read has been written in one of these
ways: `finds_read`.
-/
import Dwarf2.Proofs.Line.Instruction
import Dwarf2.Proofs.Section.Taken

namespace Dwarf2
namespace Line

/-- How many operands the header declares for a standard opcode. -/
def Header.operandCount (h : Header) (opcode : UInt8) : Nat :=
  (h.operandCounts.getD (opcode.toNat - 1) 0).toNat

variable {s : Section} {order : ByteOrder} {h : Header} {addressSize opcode : UInt8}
  {i : Instruction} {bytes : List UInt8} {count start : Nat}

namespace Instruction

/-- So many LEB128 numbers, whatever they spell. -/
inductive Operands : Nat → List UInt8 → Prop
  | nil : Operands 0 []
  | cons {count : Nat} {groups bytes : List UInt8} (closed : Leb128.Closed groups)
      (more : Operands count bytes) : Operands (count + 1) (groups ++ bytes)

/-- The extended opcodes that are known. -/
def KnownExtended (opcode : UInt8) : Prop :=
  opcode = 1 ∨ opcode = 2 ∨ opcode = 3

instance (opcode : UInt8) : Decidable (KnownExtended opcode) :=
  inferInstanceAs (Decidable (_ ∨ _))

/-- The bytes of an extended instruction behind its length. -/
inductive EncodesExtended (order : ByteOrder) (addressSize : UInt8) (length : UInt64) :
    Instruction → List UInt8 → Prop
  | endSequence : EncodesExtended order addressSize length .endSequence [1]
  | setAddress {bytes : List UInt8} {n : UInt64}
      (addressable : 1 ≤ addressSize ∧ addressSize ≤ 8)
      (width : bytes.length = addressSize.toNat) (spelled : order.value bytes = n.toNat) :
      EncodesExtended order addressSize length (.setAddress n) (2 :: bytes)
  /-- A name, and the numbers of its directory, time and size. -/
  | defineFile {name operands : List UInt8} (inner : 0 ∉ name) (numbers : Operands 3 operands) :
      EncodesExtended order addressSize length .defineFile (3 :: (name ++ [0] ++ operands))
  | unknown {opcode : UInt8} {payload : List UInt8} (unknown : ¬KnownExtended opcode)
      (declared : payload.length = length.toNat - 1) :
      EncodesExtended order addressSize length (.unknownExtended opcode) (opcode :: payload)

/-- The bytes of an instruction. -/
inductive Encodes (order : ByteOrder) (h : Header) (addressSize : UInt8) :
    Instruction → List UInt8 → Prop
  | special {opcode : UInt8} (special : h.opcodeBase ≤ opcode) :
      Encodes order h addressSize (.special opcode) [opcode]
  | copy (standard : 1 < h.opcodeBase) : Encodes order h addressSize .copy [1]
  | advancePc {groups : List UInt8} {n : UInt64} (standard : 2 < h.opcodeBase)
      (spelled : Leb128.Saturates groups n) :
      Encodes order h addressSize (.advancePc n) (2 :: groups)
  | advanceLine {groups : List UInt8} {n : Int64} (standard : 3 < h.opcodeBase)
      (spelled : Leb128.Wraps groups n) :
      Encodes order h addressSize (.advanceLine n) (3 :: groups)
  | setFile {groups : List UInt8} {n : UInt64} (standard : 4 < h.opcodeBase)
      (spelled : Leb128.Saturates groups n) :
      Encodes order h addressSize (.setFile n) (4 :: groups)
  | setColumn {groups : List UInt8} {n : UInt64} (standard : 5 < h.opcodeBase)
      (spelled : Leb128.Saturates groups n) :
      Encodes order h addressSize (.setColumn n) (5 :: groups)
  | negateStatement (standard : 6 < h.opcodeBase) :
      Encodes order h addressSize .negateStatement [6]
  | setBasicBlock (standard : 7 < h.opcodeBase) : Encodes order h addressSize .setBasicBlock [7]
  | constAddPc (standard : 8 < h.opcodeBase) : Encodes order h addressSize .constAddPc [8]
  | fixedAdvancePc {bytes : List UInt8} {n : UInt16} (standard : 9 < h.opcodeBase)
      (width : bytes.length = 2) (spelled : order.value bytes = n.toNat) :
      Encodes order h addressSize (.fixedAdvancePc n) (9 :: bytes)
  | unknownStandard {opcode : UInt8} {operands : List UInt8} (unknown : 10 ≤ opcode)
      (standard : opcode < h.opcodeBase) (numbers : Operands (h.operandCount opcode) operands) :
      Encodes order h addressSize (.unknownStandard opcode) (opcode :: operands)
  | extended {i : Instruction} {groups bytes : List UInt8} {length : UInt64}
      (spelled : Leb128.Saturates groups length) (nonzero : length ≠ 0)
      (encoded : EncodesExtended order addressSize length i bytes) :
      Encodes order h addressSize i (0 :: (groups ++ bytes))
  /-- A length of zero leaves no room for an opcode. -/
  | empty {groups : List UInt8} (spelled : Leb128.Saturates groups 0) :
      Encodes order h addressSize (.unknownExtended 0) (0 :: groups)

/-! ## Every instruction is written in some way -/

/-- The instruction is one of the header's, and its operands have room where they are written. -/
def InRange (h : Header) (addressSize : UInt8) : Instruction → Prop
  | special opcode => h.opcodeBase ≤ opcode
  | unknownStandard opcode => 10 ≤ opcode ∧ opcode < h.opcodeBase
  | setAddress n => n.toNat < 256 ^ addressSize.toNat
  | unknownExtended opcode => ¬KnownExtended opcode
  | _ => True

theorem exists_operands (count : Nat) : ∃ bytes, Operands count bytes := by
  induction count with
  | zero => exact ⟨[], .nil⟩
  | succ count ih =>
    obtain ⟨bytes, more⟩ := ih
    have zero : Leb128.Closed [0] := .single rfl
    exact ⟨_, .cons zero more⟩

/-- The length is one, as long as nothing follows the opcode that it has to tell. -/
theorem exists_encodes_extended (encoded : EncodesExtended order addressSize 1 i bytes) :
    ∃ bytes, Encodes order h addressSize i bytes := by
  obtain ⟨groups, spelled⟩ := Leb128.exists_saturates 1
  exact ⟨_, .extended spelled (by decide) encoded⟩

theorem exists_encodes (order : ByteOrder) (standard : 10 ≤ h.opcodeBase)
    (addressable : 1 ≤ addressSize ∧ addressSize ≤ 8) (inRange : i.InRange h addressSize) :
    ∃ bytes, Encodes order h addressSize i bytes := by
  have below (opcode : UInt8) (known : opcode < 10) : opcode < h.opcodeBase :=
    UInt8.lt_of_lt_of_le known standard
  cases i with
  | special opcode => exact ⟨_, .special inRange⟩
  | copy => exact ⟨_, .copy (below 1 (by decide))⟩
  | advancePc n =>
    exact (Leb128.exists_saturates n).imp' _ fun _ => .advancePc (below 2 (by decide))
  | advanceLine n =>
    exact (Leb128.exists_wraps n).imp' _ fun _ => .advanceLine (below 3 (by decide))
  | setFile n => exact (Leb128.exists_saturates n).imp' _ fun _ => .setFile (below 4 (by decide))
  | setColumn n =>
    exact (Leb128.exists_saturates n).imp' _ fun _ => .setColumn (below 5 (by decide))
  | negateStatement => exact ⟨_, .negateStatement (below 6 (by decide))⟩
  | setBasicBlock => exact ⟨_, .setBasicBlock (below 7 (by decide))⟩
  | constAddPc => exact ⟨_, .constAddPc (below 8 (by decide))⟩
  | fixedAdvancePc n =>
    obtain ⟨bytes, width, spelled⟩ := order.exists_value 2 n.toNat_lt
    exact ⟨_, .fixedAdvancePc (below 9 (by decide)) width spelled⟩
  | unknownStandard opcode =>
    obtain ⟨operands, numbers⟩ := exists_operands (h.operandCount opcode)
    exact ⟨_, .unknownStandard inRange.1 inRange.2 numbers⟩
  | endSequence => exact exists_encodes_extended .endSequence
  | setAddress n =>
    obtain ⟨bytes, width, spelled⟩ := order.exists_value _ inRange
    exact exists_encodes_extended (.setAddress addressable width spelled)
  | defineFile =>
    obtain ⟨operands, numbers⟩ := exists_operands 3
    exact exists_encodes_extended (.defineFile List.not_mem_nil numbers)
  | unknownExtended opcode =>
    have nothing : ([] : List UInt8).length = (1 : UInt64).toNat - 1 := rfl
    exact exists_encodes_extended (.unknown inRange nothing)

theorem EncodesExtended.inRange {length : UInt64}
    (encoded : EncodesExtended order addressSize length i bytes) : i.InRange h addressSize := by
  cases encoded with
  | setAddress addressable width spelled =>
    show _ < 256 ^ addressSize.toNat
    rw [← spelled, ← width]
    exact order.value_lt _
  | unknown unknown => exact unknown
  | _ => trivial

theorem Encodes.inRange (encoded : Encodes order h addressSize i bytes) :
    i.InRange h addressSize := by
  cases encoded with
  | special special => exact special
  | unknownStandard unknown standard => exact ⟨unknown, standard⟩
  | extended _ _ encoded => exact encoded.inRange
  | empty => exact (by decide : ¬KnownExtended 0)
  | _ => trivial

/-! ## What is written is read -/

theorem reads_readOperands (numbers : Operands count bytes) :
    s.Reads (readOperands s count) () bytes := by
  induction numbers with
  | nil => exact .pure ()
  | cons closed _ ih => exact (Section.reads_leb128 closed).bind ih

theorem reads_standard {opcode : UInt8} {i : Instruction} {operands : List UInt8}
    (standard : opcode < h.opcodeBase)
    (reads : s.Reads (readStandard s h addressSize opcode) i operands) :
    s.Reads (read s h addressSize) i (opcode :: operands) := by
  show s.Reads _ i ([opcode] ++ operands)
  refine .bind (Section.reads_byte opcode) ?_
  rw [if_neg (UInt8.not_le.2 standard)]
  exact reads

theorem reads_special {opcode : UInt8} (special : h.opcodeBase ≤ opcode) :
    s.Reads (read s h addressSize) (.special opcode) [opcode] := by
  show s.Reads _ _ ([opcode] ++ [])
  refine .bind (Section.reads_byte opcode) ?_
  rw [if_pos special]
  exact .pure _

/-- No opcode from ten on is known. -/
theorem readStandard_of_unknown (unknown : 10 ≤ opcode) :
    readStandard s h addressSize opcode =
      readOperands s (h.operandCount opcode) >>= fun _ => pure (unknownStandard opcode) := by
  unfold readStandard
  split
  case h_11 => rfl
  all_goals exact absurd unknown (by decide)

theorem zero_lt_opcodeBase (h : Header) : 0 < h.opcodeBase :=
  UInt8.pos_iff_ne_zero.2 h.opcodeBase_ne_zero

theorem reads_readExtended {groups : List UInt8} {length : UInt64}
    (spelled : Leb128.Saturates groups length) (nonzero : length ≠ 0)
    (encoded : EncodesExtended s.order addressSize length i bytes) :
    s.Reads (readExtended s addressSize) i (groups ++ bytes) := by
  refine .bind (Section.reads_saturated spelled) ?_
  rw [if_neg nonzero]
  cases encoded with
  | endSequence =>
    show s.Reads _ _ ([1] ++ [])
    exact .bind (Section.reads_byte 1) (.pure _)
  | @setAddress bytes n addressable width spelled =>
    show s.Reads _ _ ([2] ++ bytes)
    refine .bind (Section.reads_byte 2) ?_
    exact (Section.reads_address addressable width spelled).then_pure _
  | @defineFile name operands inner numbers =>
    show s.Reads _ _ ([3] ++ (name ++ [0] ++ operands))
    refine .bind (Section.reads_byte 3) ?_
    refine .bind (Section.reads_string inner) ?_
    exact (reads_readOperands numbers).then_pure _
  | @unknown opcode payload unknown declared =>
    show s.Reads _ _ ([opcode] ++ payload)
    refine .bind (Section.reads_byte opcode) ?_
    split
    case h_4 => exact (Section.reads_skip declared).then_pure _
    all_goals exact absurd (by decide) unknown

/-- An instruction is read from wherever it is written. -/
theorem reads_read (encoded : Encodes s.order h addressSize i bytes) :
    s.Reads (read s h addressSize) i bytes := by
  cases encoded with
  | special special => exact reads_special special
  | copy standard | negateStatement standard | setBasicBlock standard | constAddPc standard =>
    exact reads_standard standard (.pure _)
  | advancePc standard spelled | setFile standard spelled | setColumn standard spelled =>
    exact reads_standard standard ((Section.reads_saturated spelled).then_pure _)
  | advanceLine standard spelled =>
    exact reads_standard standard ((Section.reads_wrapped spelled).then_pure _)
  | fixedAdvancePc standard width spelled =>
    obtain ⟨n, value, reads⟩ := Section.reads_uint16 width
    cases UInt16.toNat_inj.1 (value.trans spelled)
    exact reads_standard standard (reads.then_pure _)
  | unknownStandard unknown standard numbers =>
    refine reads_standard standard ?_
    rw [readStandard_of_unknown unknown]
    exact (reads_readOperands numbers).then_pure _
  | extended spelled nonzero encoded =>
    exact reads_standard (zero_lt_opcodeBase h) (reads_readExtended spelled nonzero encoded)
  | empty spelled =>
    refine reads_standard (zero_lt_opcodeBase h) ?_
    exact (Section.reads_saturated spelled).ending (.pure _)

/-! ## What is read is written -/

theorem finds_readOperands (s : Section) (count : Nat) :
    s.Finds (readOperands s count) fun _ bytes => Operands count bytes := by
  induction count with
  | zero => exact .pure .nil
  | succ count ih =>
    refine .bind (Section.finds_leb128 s) fun groups front first => ?_
    intro start _ stop inside run
    obtain ⟨inside, more⟩ := ih start _ stop inside run
    exact ⟨inside, .cons first.2 more⟩

theorem finds_readExtended (s : Section) (h : Header) (addressSize : UInt8) :
    s.Finds (readExtended s addressSize) fun i bytes =>
      Encodes s.order h addressSize i (0 :: bytes) := by
  refine .bind (Section.takes_unsigned s).finds fun length groups spelled => ?_
  by_cases zero : length = 0
  · rw [if_pos zero]
    refine .pure ?_
    rw [List.append_nil]
    exact .empty (zero ▸ spelled)
  rw [if_neg zero]
  refine .bind (Section.takes_byte s).finds fun opcode front same => ?_
  subst same
  split
  · exact .pure (.extended spelled zero .endSequence)
  · refine (Section.finds_address s addressSize).then_pure _ fun n bytes found => ?_
    exact .extended spelled zero (.setAddress found.1 found.2.1 found.2.2)
  · refine .bind (Section.finds_string s) fun _ front terminated => ?_
    obtain ⟨name, inner, rfl⟩ := terminated
    refine (finds_readOperands s 3).then_pure _ fun _ operands numbers => ?_
    exact .extended spelled zero (.defineFile inner numbers)
  · rename_i ended set defined
    have unknown : ¬KnownExtended opcode := by
      rintro (same | same | same)
      · exact ended same
      · exact set same
      · exact defined same
    refine (Section.finds_skip s _).then_pure _ fun _ payload declared => ?_
    exact .extended spelled zero (.unknown unknown declared)

theorem finds_readStandard (s : Section) (addressSize : UInt8) (standard : opcode < h.opcodeBase) :
    s.Finds (readStandard s h addressSize opcode) fun i bytes =>
      Encodes s.order h addressSize i (opcode :: bytes) := by
  unfold readStandard
  split
  · exact finds_readExtended s h addressSize
  · exact .pure (.copy standard)
  · exact (Section.takes_unsigned s).finds.then_pure _ fun _ _ => .advancePc standard
  · exact (Section.takes_signed s).finds.then_pure _ fun _ _ => .advanceLine standard
  · exact (Section.takes_unsigned s).finds.then_pure _ fun _ _ => .setFile standard
  · exact (Section.takes_unsigned s).finds.then_pure _ fun _ _ => .setColumn standard
  · exact .pure (.negateStatement standard)
  · exact .pure (.setBasicBlock standard)
  · exact .pure (.constAddPc standard)
  · exact (Section.takes_uint16 s).finds.then_pure _
      fun _ _ found => .fixedAdvancePc standard found.1 found.2
  · refine (finds_readOperands s _).then_pure _ fun _ _ => .unknownStandard ?_ standard
    grind

/-- Whatever an instruction is read from is one of the ways to write it. -/
theorem finds_read (s : Section) (h : Header) (addressSize : UInt8) :
    s.Finds (read s h addressSize) (Encodes s.order h addressSize) := by
  refine .bind (Section.takes_byte s).finds fun opcode front same => ?_
  subst same
  by_cases special : h.opcodeBase ≤ opcode
  · rw [if_pos special]
    exact .pure (.special special)
  · rw [if_neg special]
    exact finds_readStandard s addressSize (UInt8.not_le.1 special)

end Instruction

open Instruction

/-! ## Instructions with their bytes -/

/-- An instruction and one of the ways to write it. -/
structure Written (order : ByteOrder) (h : Header) (addressSize : UInt8) where
  instruction : Instruction
  bytes : List UInt8
  encoded : Encodes order h addressSize instruction bytes

namespace Written

variable {code code' : List (Written order h addressSize)}

def instructionsOf (code : List (Written order h addressSize)) : List Instruction :=
  code.map Written.instruction

/-- The bytes of all instructions, one after another. -/
def bytesOf (code : List (Written order h addressSize)) : List UInt8 :=
  code.flatMap Written.bytes

@[simp] theorem instructionsOf_nil :
    instructionsOf ([] : List (Written order h addressSize)) = [] :=
  rfl

@[simp] theorem instructionsOf_cons (w : Written order h addressSize) :
    instructionsOf (w :: code) = w.instruction :: instructionsOf code :=
  rfl

@[simp] theorem instructionsOf_append :
    instructionsOf (code ++ code') = instructionsOf code ++ instructionsOf code' :=
  List.map_append

@[simp] theorem bytesOf_nil : bytesOf ([] : List (Written order h addressSize)) = [] :=
  rfl

@[simp] theorem bytesOf_cons (w : Written order h addressSize) :
    bytesOf (w :: code) = w.bytes ++ bytesOf code :=
  rfl

@[simp] theorem bytesOf_append : bytesOf (code ++ code') = bytesOf code ++ bytesOf code' :=
  List.flatMap_append

theorem forall_inRange_iff (order : ByteOrder) (standard : 10 ≤ h.opcodeBase)
    (addressable : 1 ≤ addressSize ∧ addressSize ≤ 8) (instructions : List Instruction) :
    (∀ i ∈ instructions, i.InRange h addressSize) ↔
      ∃ code : List (Written order h addressSize), instructionsOf code = instructions := by
  constructor
  · intro inRange
    induction instructions with
    | nil => exact ⟨[], rfl⟩
    | cons i rest ih =>
      obtain ⟨bytes, encoded⟩ :=
        exists_encodes order standard addressable (inRange i List.mem_cons_self)
      obtain ⟨code, rfl⟩ := ih fun j mem => inRange j (List.mem_cons_of_mem i mem)
      exact ⟨⟨i, bytes, encoded⟩ :: code, rfl⟩
  · rintro ⟨code, rfl⟩ i mem
    obtain ⟨w, -, rfl⟩ := List.mem_map.1 mem
    exact w.encoded.inRange

theorem reads (w : Written order h addressSize) (same : s.order = order) :
    s.Reads (read s h addressSize) w.instruction w.bytes := by
  subst same
  exact reads_read w.encoded

/-- Where an instruction stands among the others, it is read. -/
theorem run_read (same : s.order = order) (holds : s.bytes.Holds start (bytesOf code)) (k : Nat)
    (inside : k < code.length) :
    (read s h addressSize).run (start + (bytesOf (code.take k)).length) =
      .ok (code[k].instruction, start + (bytesOf (code.take (k + 1))).length) := by
  have parts : bytesOf code =
      bytesOf (code.take k) ++ (code[k].bytes ++ bytesOf (code.drop (k + 1))) := by
    rw [← bytesOf_cons, ← List.drop_eq_getElem_cons inside, ← bytesOf_append,
      List.take_append_drop]
  have next : (bytesOf (code.take (k + 1))).length =
      (bytesOf (code.take k)).length + code[k].bytes.length := by
    rw [List.take_succ_eq_append_getElem inside, bytesOf_append, List.length_append,
      bytesOf_cons, bytesOf_nil, List.append_nil]
  rw [parts] at holds
  rw [code[k].reads same _ holds.right.left, next, Nat.add_assoc]

end Written

namespace Instruction

/-- The next instruction; none at the end of the data. -/
def next? (s : Section) (h : Header) (addressSize : UInt8) : Read (Option Instruction) :=
  s.untilEnd (some <$> read s h addressSize)

theorem itemsProgress_next? (s : Section) (h : Header) (addressSize : UInt8) :
    (next? s h addressSize).ItemsProgress s.bytes.size :=
  s.untilEnd_itemsProgress ((read_progresses s h addressSize).map _)

/-- Instruction after instruction, up to the end of the data. -/
def readAll (s : Section) (h : Header) (addressSize : UInt8) (start : Nat) :
    List Instruction × Except Error Nat :=
  Read.collect (next? s h addressSize) s.bytes.size (itemsProgress_next? s h addressSize) start

theorem run_next? (s : Section) (h : Header) (addressSize : UInt8) (start : Nat) :
    (next? s h addressSize).run start =
      if s.bytes.size ≤ start then .ok (none, start)
      else ((read s h addressSize).run start).map fun r => (some r.1, r.2) := by
  rw [next?, Section.run_untilEnd, Read.run_map]

theorem readAll_done (done : s.bytes.size ≤ start) :
    readAll s h addressSize start = ([], .ok start) := by
  rw [readAll, Read.collect_eq, run_next?, if_pos done]

theorem readAll_of_run {next : Nat} (run : (read s h addressSize).run start = .ok (i, next)) :
    readAll s h addressSize start =
      (i :: (readAll s h addressSize next).1, (readAll s h addressSize next).2) := by
  have inside : ¬s.bytes.size ≤ start :=
    Nat.not_le.2 (read_progresses s h addressSize start i next run).1
  rw [readAll, Read.collect_eq, run_next?, if_neg inside, run]
  rfl

open Written

theorem readAll_of_holds (same : s.order = order) {code : List (Written order h addressSize)}
    (holds : s.bytes.Holds start (bytesOf code))
    (last : s.bytes.size = start + (bytesOf code).length) :
    readAll s h addressSize start = (instructionsOf code, .ok s.bytes.size) := by
  induction code generalizing start with
  | nil =>
    have done : s.bytes.size = start := last
    rw [readAll_done (Nat.le_of_eq done), done]
    rfl
  | cons w code ih =>
    rw [bytesOf_cons] at holds
    rw [bytesOf_cons, List.length_append, ← Nat.add_assoc] at last
    rw [readAll_of_run (w.reads same _ holds.left), ih holds.right last, instructionsOf_cons]

/-- Instructions that are written one after another, each in any of its ways, are all read back, and
each read takes the bytes of its own instruction.  Where the data ends behind them, so does the
reading.  Those that are in the range of the header can be written. -/
theorem readAll_written (order : ByteOrder) (standard : 10 ≤ h.opcodeBase)
    (addressable : 1 ≤ addressSize ∧ addressSize ≤ 8) (instructions : List Instruction) :
    ((∀ i ∈ instructions, i.InRange h addressSize) ↔
        ∃ code : List (Written order h addressSize), instructionsOf code = instructions) ∧
      ∀ code : List (Written order h addressSize), instructionsOf code = instructions →
        ∀ (s : Section) (start : Nat), s.order = order → s.bytes.Holds start (bytesOf code) →
          (∀ k (inside : k < instructions.length),
            (read s h addressSize).run (start + (bytesOf (code.take k)).length) =
              .ok (instructions[k], start + (bytesOf (code.take (k + 1))).length)) ∧
          (s.bytes.size = start + (bytesOf code).length →
            readAll s h addressSize start = (instructions, .ok s.bytes.size)) := by
  refine ⟨forall_inRange_iff order standard addressable instructions, ?_⟩
  intro code same s start order holds
  subst same
  refine ⟨fun k inside => ?_, readAll_of_holds order holds⟩
  have inside' : k < code.length := by simpa [instructionsOf] using inside
  rw [run_read order holds k inside']
  simp [instructionsOf]

namespace Padded

def header : Header where
  minInstructionLength := 1
  defaultIsStatement := true
  lineBase := -5
  lineRange := 12
  opcodeBase := 13
  operandCounts := #[0, 1, 1, 1, 1, 0, 0, 0, 1, 0, 0, 1]
  program := 0
  stop := 0
  lineRange_ne_zero := by decide
  opcodeBase_ne_zero := by decide

/-- Numbers with a group too many, and opcodes on both sides of the first that is special. -/
def code : List (Written .big header 4) :=
  have five : Leb128.Saturates [5] 5 := ⟨.single (by decide), by decide⟩
  have three : Leb128.Saturates [0x83, 0x00] 3 :=
    ⟨.cons (by decide) (.single (by decide)), by decide⟩
  have one : Leb128.Saturates [1] 1 := ⟨.single (by decide), by decide⟩
  have negative : Leb128.Wraps [0xff, 0x7f] (-1) :=
    ⟨.cons (by decide) (.single (by decide)), by decide⟩
  have operand : Operands 1 [0x81, 0x00] :=
    .cons (.cons (by decide) (.single (by decide))) .nil
  [⟨.setAddress 0x1000, [0, 5, 2, 0, 0, 0x10, 0],
      .extended five (by decide) (.setAddress (by decide) rfl (by decide))⟩,
    ⟨_, _, .advanceLine (by decide) negative⟩,
    ⟨.unknownStandard 12, _, .unknownStandard (by decide) (by decide) operand⟩,
    ⟨.special 13, _, .special (by decide)⟩,
    ⟨.unknownExtended 0x80, [0, 0x83, 0x00, 0x80, 1, 1],
      .extended three (by decide) (.unknown (by decide) (by decide))⟩,
    ⟨_, _, .extended one (by decide) .endSequence⟩]

end Padded

open Padded in
theorem readAll_padded :
    let instructions := [setAddress 0x1000, advanceLine (-1), unknownStandard 12, special 13,
      unknownExtended 0x80, endSequence]
    let s : Section := ⟨.lines, .big, (bytesOf code).toArray⟩
    instructionsOf code = instructions ∧ s.bytes.Holds 0 (bytesOf code) ∧
      s.bytes.size = (bytesOf code).length ∧ (∀ i ∈ instructions, i.InRange header 4) ∧
      readAll s header 4 0 = (instructions, .ok s.bytes.size) := by
  intro instructions s
  have same : instructionsOf code = instructions := rfl
  have holds : s.bytes.Holds 0 (bytesOf code) := ⟨[], [], rfl, by simp [s]⟩
  have addressable : 1 ≤ (4 : UInt8) ∧ (4 : UInt8) ≤ 8 := by decide
  have all := readAll_written (h := header) .big (by decide) addressable instructions
  exact ⟨same, holds, rfl, all.1.2 ⟨code, same⟩,
    (all.2 code same s 0 rfl holds).2 (Nat.zero_add _).symm⟩

end Instruction
end Line
end Dwarf2
