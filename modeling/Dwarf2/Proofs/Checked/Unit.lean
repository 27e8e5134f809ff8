/-
Reading units with steps that may panic: their headers, their abbreviations, and their entries
with the values of the attributes.
-/
import Dwarf2.CompilationUnit
import Dwarf2.Proofs.Checked.Read
import Dwarf2.Proofs.Encoding

namespace Dwarf2
namespace Checked

open Reader (Follows)

namespace Leb128

def uint16? (groups : List UInt8) : Checked (Option UInt16) := do
  let value ← unsigned groups
  return if value ≤ 0xffff then some value.toUInt16 else none

theorem uint16?_eq (groups : List UInt8) :
    uint16? groups = .ok (Dwarf2.Leb128.uint16? groups) := by
  rw [uint16?, unsigned_eq]
  rfl

end Leb128

/-! ## Abbreviations -/

namespace Abbreviation

def readAttribute? (s : Section) (code : UInt64) : Reader (Option AttributeSpec) := do
  let start ← .position
  let name ← Section.leb128 s
  let form ← Section.leb128 s
  if Leb128.isZero name && Leb128.isZero form then
    return none
  match ← .step (Leb128.uint16? name) with
  | some name => return some ⟨⟨name⟩, Form.ofCode (← .step (Leb128.unsigned form))⟩
  | none => Section.fault s (.nameTooWide code start)

def readAttributes (s : Section) (code : UInt64) : Reader (List AttributeSpec) :=
  .many (readAttribute? s code) (s.bytes.size + 1)

def readBody (s : Section) (code : UInt64) : Reader Dwarf2.Abbreviation := do
  let start ← .position
  let tag ← Section.leb128 s
  match ← .step (Leb128.uint16? tag) with
  | none => Section.fault s (.tagTooWide code start)
  | some tag =>
    let child ← Section.uint8 s
    return ⟨code, ⟨tag⟩, child ≠ 0, ← readAttributes s code⟩

def read? (s : Section) : Reader (Option Dwarf2.Abbreviation) := do
  let code ← Section.unsigned s
  if code = 0 then
    return none
  return some (← readBody s code)

def readAll (s : Section) : Reader (List Dwarf2.Abbreviation) :=
  .many (Section.untilEnd s (read? s)) (s.bytes.size + 1)

/-- The table at an offset of the section, which may be its very end. -/
def readTable (s : Section) (offset : Nat) : Checked (Except Error Abbreviation.Table) := do
  if s.bytes.size < offset then
    return .error (.malformed s.kind (.tableOffset offset s.bytes.size))
  match ← readAll s offset with
  | .error e => return .error e
  | .ok (declarations, _) => return .ok (.ofDeclarations declarations)

variable {s : Section}

theorem follows_readAttribute? (h : Addressable s) (code : UInt64) (start : Nat) :
    Follows (readAttribute? s code) (Dwarf2.Abbreviation.readAttribute? s code) start := by
  refine .bind (.position start) fun _ _ _ => ?_
  refine .bind (Section.follows_leb128 h _) fun name _ _ => ?_
  refine .bind (Section.follows_leb128 h _) fun form _ _ => ?_
  refine .ite (fun _ => .pure _ _) fun _ => .step (Leb128.uint16?_eq name) ?_
  cases Dwarf2.Leb128.uint16? name with
  | none => exact Section.follows_fault _ _
  | some name => exact .step (Leb128.unsigned_eq form) (.pure _ _)

theorem follows_readAttributes (h : Addressable s) (code : UInt64) (start : Nat) :
    Follows (readAttributes s code) (Dwarf2.Abbreviation.readAttributes s code) start :=
  .many _ (by omega) fun position _ => follows_readAttribute? h code position

theorem follows_readBody (h : Addressable s) (code : UInt64) (start : Nat) :
    Follows (readBody s code) (Dwarf2.Abbreviation.readBody s code) start := by
  refine .bind (.position start) fun _ _ _ => ?_
  refine .bind (Section.follows_leb128 h _) fun tag _ _ => .step (Leb128.uint16?_eq tag) ?_
  cases Dwarf2.Leb128.uint16? tag with
  | none => exact Section.follows_fault _ _
  | some tag =>
    refine .bind (Section.follows_uint8 h _) fun child _ _ => ?_
    exact .bind (follows_readAttributes h code _) fun _ _ _ => .pure _ _

theorem follows_read? (h : Addressable s) (start : Nat) :
    Follows (read? s) (Dwarf2.Abbreviation.read? s) start := by
  refine .bind (Section.follows_unsigned h start) fun code _ _ => ?_
  refine .ite (fun _ => .pure _ _) fun _ => ?_
  exact .bind (follows_readBody h code _) fun _ _ _ => .pure _ _

theorem follows_readAll (h : Addressable s) (start : Nat) :
    Follows (readAll s) (Dwarf2.Abbreviation.readAll s) start :=
  .many _ (by omega) fun position _ => Section.follows_untilEnd (follows_read? h position)

theorem readTable_eq (h : Addressable s) (offset : Nat) :
    readTable s offset = .ok (Abbreviation.Table.read s offset) := by
  unfold readTable Abbreviation.Table.read
  split
  · rfl
  · rw [(follows_readAll h offset).run_eq, ok_bind, Read.value]
    cases (Dwarf2.Abbreviation.readAll s).run offset <;> rfl

end Abbreviation

/-! ## Values -/

namespace UnitView

variable (v : UnitView)

/-- Follows a chain of indirect forms. -/
def followIndirect : (rounds : Nat) → Reader Form
  | 0 => .step (.error .endless)
  | rounds + 1 => do
    let form := Form.ofCode (← Section.unsigned v.info)
    if form = .indirect then
      followIndirect rounds
    else
      return form

def actualForm : Form → Reader Form
  | .indirect => followIndirect v (v.information.size + 1)
  | form => return form

def stringAt? (offset : Nat) : Checked (Option Bytes) := do
  match ← Section.string ⟨.strings, v.order, v.strings⟩ offset with
  | .ok (bytes, _) => return some bytes
  | .error _ => return none

/-- A string that is not there is told of with the position of its offset. -/
def readStrp? : Reader (Option AttributeValue) := do
  let offset ← Section.uint32 v.info
  match ← .step (stringAt? v offset.toNat) with
  | some bytes => return some (.string bytes)
  | none =>
    let behind ← .position
    let _ ← .step (sub behind 4)
    return none

def readDirect? : Form → Reader (Option AttributeValue)
  | .addr => return some (.address (← Section.address v.info v.addressSize))
  | .flag | .data1 => return some (.unsigned (← Section.fixed v.info 1))
  | .data2 => return some (.unsigned (← Section.fixed v.info 2))
  | .data4 => return some (.unsigned (← Section.fixed v.info 4))
  | .udata => return some (.unsigned (← Section.unsigned v.info))
  | .sdata => return some (.signed (← Section.signed v.info))
  | .string => return some (.string (← Section.string v.info))
  | .strp => readStrp? v
  | .refAddr => return some (.reference (← Section.address v.info v.addressSize).toNat)
  | .ref1 => return some (v.reference (← Section.fixed v.info 1))
  | .ref2 => return some (v.reference (← Section.fixed v.info 2))
  | .ref4 => return some (v.reference (← Section.fixed v.info 4))
  | .refUdata => return some (v.reference (← Section.unsigned v.info))
  | .block1 => return some (.block (← Section.block v.info (← Section.uint8 v.info).toNat))
  | .block2 => return some (.block (← Section.block v.info (← Section.uint16 v.info).toNat))
  | .block4 => return some (.block (← Section.block v.info (← Section.uint32 v.info).toNat))
  | .block => return some (.block (← Section.block v.info (← Section.unsigned v.info).toNat))
  | .data8 | .ref8 => do Section.skip v.info 8; return none
  | .indirect | .unknown _ => return none

def readValue? (form : Form) : Reader (Form × Option AttributeValue) := do
  let form ← actualForm v form
  return (form, ← readDirect? v form)

def skipDirect (form : Form) : Reader Unit :=
  match form.length? v.addressSize with
  | some length => Section.skip v.info length
  | none =>
    match form with
    | .udata | .sdata | .refUdata => do let _ ← Section.leb128 v.info
    | .string => do let _ ← Section.string v.info
    | .block1 => do Section.skip v.info (← Section.uint8 v.info).toNat
    | .block2 => do Section.skip v.info (← Section.uint16 v.info).toNat
    | .block4 => do Section.skip v.info (← Section.uint32 v.info).toNat
    | .block => do Section.skip v.info (← Section.unsigned v.info).toNat
    | _ => pure ()

def skipValue (form : Form) : Reader Unit := do
  skipDirect v (← actualForm v form)

variable {v}

theorem follows_followIndirect (h : Addressable v.info) {rounds start : Nat}
    (enough : v.information.size - start < rounds) :
    Follows (followIndirect v rounds) (v.actualForm .indirect) start := by
  induction rounds generalizing start with
  | zero => omega
  | succ rounds ih =>
    have first := Section.follows_unsigned h start
    unfold Follows
    rw [Dwarf2.UnitView.actualForm, Read.run_ofRun, followIndirect, Reader.run_bind,
      first.run_eq]
    cases read : v.info.unsigned.run start with
    | error e =>
      rw [Dwarf2.UnitView.followIndirect_error read]
      rfl
    | ok r =>
      obtain ⟨code, next⟩ := r
      have progress := v.info.unsigned_progresses start code next read
      change (if Form.ofCode code = .indirect then followIndirect v rounds
        else pure (Form.ofCode code)) next = _
      split
      · rename_i indirect
        rw [Dwarf2.UnitView.followIndirect_next read indirect]
        have rest : Follows (followIndirect v rounds) (v.actualForm .indirect) next :=
          ih (by simp only [Dwarf2.UnitView.info] at progress; omega)
        have rest := rest.run_eq
        rwa [Dwarf2.UnitView.actualForm, Read.run_ofRun] at rest
      · rename_i direct
        rw [Dwarf2.UnitView.followIndirect_last read direct]
        rfl

theorem follows_actualForm (h : Addressable v.info) (form : Form) (start : Nat) :
    Follows (actualForm v form) (v.actualForm form) start := by
  cases form
  case indirect => exact follows_followIndirect h (by omega)
  all_goals exact .pure _ _

theorem stringAt?_eq (h : Addressable ⟨.strings, v.order, v.strings⟩) (offset : Nat) :
    stringAt? v offset = .ok (v.stringAt? offset) := by
  rw [stringAt?, (Section.follows_string h offset).run_eq, ok_bind,
    Dwarf2.UnitView.stringAt?, Read.value]
  cases (Dwarf2.Section.string ⟨.strings, v.order, v.strings⟩).run offset <;> rfl

theorem follows_readStrp? (h : Addressable v.info)
    (strings : Addressable ⟨.strings, v.order, v.strings⟩) (start : Nat) :
    Follows (readStrp? v) (v.readDirect? .strp) start := by
  refine .bind (Section.follows_uint32 h start) fun offset stop read => ?_
  refine .step (stringAt?_eq strings offset.toNat) ?_
  cases v.stringAt? offset.toNat with
  | some bytes => exact .pure _ _
  | none =>
    have behind : stop = start + 4 ∧ stop ≤ v.information.size :=
      ((v.info.lands_number ..).1 ((Read.lands_map ..).1 ⟨offset, read⟩))
    exact .positioned (.step (guarded_of (by omega) _ _) (.pure _ _))

theorem follows_readDirect? (h : Addressable v.info)
    (strings : Addressable ⟨.strings, v.order, v.strings⟩) (form : Form) (start : Nat) :
    Follows (readDirect? v form) (v.readDirect? form) start := by
  cases form
  case addr | refAddr =>
    exact .bind (Section.follows_address h _ start) fun _ _ _ => .pure _ _
  case flag | data1 | data2 | data4 | ref1 | ref2 | ref4 =>
    exact .bind (Section.follows_fixed h _ start) fun _ _ _ => .pure _ _
  case udata | refUdata =>
    exact .bind (Section.follows_unsigned h start) fun _ _ _ => .pure _ _
  case sdata => exact .bind (Section.follows_signed h start) fun _ _ _ => .pure _ _
  case string => exact .bind (Section.follows_string h start) fun _ _ _ => .pure _ _
  case strp => exact follows_readStrp? h strings start
  case block1 =>
    exact .bind (Section.follows_uint8 h start) fun _ _ _ =>
      .bind (Section.follows_block h _ _) fun _ _ _ => .pure _ _
  case block2 =>
    exact .bind (Section.follows_uint16 h start) fun _ _ _ =>
      .bind (Section.follows_block h _ _) fun _ _ _ => .pure _ _
  case block4 =>
    exact .bind (Section.follows_uint32 h start) fun _ _ _ =>
      .bind (Section.follows_block h _ _) fun _ _ _ => .pure _ _
  case block =>
    exact .bind (Section.follows_unsigned h start) fun _ _ _ =>
      .bind (Section.follows_block h _ _) fun _ _ _ => .pure _ _
  case data8 | ref8 => exact .bind (Section.follows_skip h 8 start) fun _ _ _ => .pure _ _
  case indirect | unknown => exact .pure _ _

theorem follows_readValue? (h : Addressable v.info)
    (strings : Addressable ⟨.strings, v.order, v.strings⟩) (form : Form) (start : Nat) :
    Follows (readValue? v form) (v.readValue? form) start :=
  .bind (follows_actualForm h form start) fun form _ _ =>
    .bind (follows_readDirect? h strings form _) fun _ _ _ => .pure _ _

theorem follows_skipDirect (h : Addressable v.info) (form : Form) (start : Nat) :
    Follows (skipDirect v form) (v.skipDirect form) start := by
  cases form
  case udata | sdata | refUdata =>
    exact .bind (Section.follows_leb128 h start) fun _ _ _ => .pure _ _
  case string => exact .bind (Section.follows_string h start) fun _ _ _ => .pure _ _
  case block1 =>
    exact .bind (Section.follows_uint8 h start) fun _ _ _ => Section.follows_skip h _ _
  case block2 =>
    exact .bind (Section.follows_uint16 h start) fun _ _ _ => Section.follows_skip h _ _
  case block4 =>
    exact .bind (Section.follows_uint32 h start) fun _ _ _ => Section.follows_skip h _ _
  case block =>
    exact .bind (Section.follows_unsigned h start) fun _ _ _ => Section.follows_skip h _ _
  case indirect | unknown => exact .pure _ _
  -- The others have a length.
  all_goals exact Section.follows_skip h _ start

theorem follows_skipValue (h : Addressable v.info) (form : Form) (start : Nat) :
    Follows (skipValue v form) (v.skipValue form) start :=
  .bind (follows_actualForm h form start) fun form _ _ => follows_skipDirect h form _

end UnitView

end Checked
end Dwarf2
