/-
How values are encoded.

`Encodes` lists what an encoder may write for a value of a form, and the value that the bytes
stand for.  Numbers are told by what their bytes spell, so nothing here goes by how they are
read.  `reads_readValue?` says that every such encoding is read back as its value, and
`reads_skipValue` that it is passed over whole.
-/
import Dwarf2.Proofs.Section.Written
import Dwarf2.Proofs.UnitView

namespace Dwarf2

namespace Form

/-- The bytes of a plain number. -/
def numberWidth? : Form → Option Nat
  | flag | data1 => some 1
  | data2 => some 2
  | data4 => some 4
  | _ => none

/-- The bytes of an offset in the unit. -/
def referenceWidth? : Form → Option Nat
  | ref1 => some 1
  | ref2 => some 2
  | ref4 => some 4
  | _ => none

/-- The bytes of the length in front of a block. -/
def blockWidth? : Form → Option Nat
  | block1 => some 1
  | block2 => some 2
  | block4 => some 4
  | _ => none

end Form

namespace UnitView

variable (v : UnitView)

/-- The bytes of a value of a form that is not indirect.  None is a value that cannot be
represented. -/
inductive EncodesDirect : Form → List UInt8 → Option AttributeValue → Prop
  | address {bytes : List UInt8} {n : UInt64} (width : bytes.length = v.addressSize.toNat)
      (spelled : v.order.value bytes = n.toNat) : EncodesDirect .addr bytes (some (.address n))
  | number {form : Form} {bytes : List UInt8} {n : UInt64}
      (width : form.numberWidth? = some bytes.length) (spelled : v.order.value bytes = n.toNat) :
      EncodesDirect form bytes (some (.unsigned n))
  | unsigned {groups : List UInt8} {n : UInt64} (spelled : Leb128.Spells groups n.toNat) :
      EncodesDirect .udata groups (some (.unsigned n))
  | signed {groups : List UInt8} {n : Int64} (spelled : Leb128.SpellsSigned groups n.toInt) :
      EncodesDirect .sdata groups (some (.signed n))
  /-- References in the unit count from its header, and stop at the last offset. -/
  | reference {form : Form} {bytes : List UInt8} {n : UInt64}
      (width : form.referenceWidth? = some bytes.length)
      (spelled : v.order.value bytes = n.toNat) :
      EncodesDirect form bytes (some (.reference (min (v.base + n.toNat) lastOffset)))
  | referenceUnsigned {groups : List UInt8} {n : UInt64}
      (spelled : Leb128.Spells groups n.toNat) :
      EncodesDirect .refUdata groups (some (.reference (min (v.base + n.toNat) lastOffset)))
  | referenceAddress {bytes : List UInt8} {n : UInt64}
      (width : bytes.length = v.addressSize.toNat) (spelled : v.order.value bytes = n.toNat) :
      EncodesDirect .refAddr bytes (some (.reference n.toNat))
  | string {text : List UInt8} (inner : 0 ∉ text) :
      EncodesDirect .string (text ++ [0]) (some (.string text.toArray))
  | stringOffset {bytes text : List UInt8} (width : bytes.length = 4) (inner : 0 ∉ text)
      (there : v.strings.Holds (v.order.value bytes) (text ++ [0])) :
      EncodesDirect .strp bytes (some (.string text.toArray))
  | noString {bytes : List UInt8} (width : bytes.length = 4)
      (absent : 0 ∉ v.strings.toList.drop (v.order.value bytes)) : EncodesDirect .strp bytes none
  | block {form : Form} {length content : List UInt8}
      (width : form.blockWidth? = some length.length)
      (spelled : v.order.value length = content.length) :
      EncodesDirect form (length ++ content) (some (.block content.toArray))
  | blockUnsigned {length content : List UInt8} (fits : content.length < 2 ^ 64)
      (spelled : Leb128.Spells length content.length) :
      EncodesDirect .block (length ++ content) (some (.block content.toArray))
  | wide {form : Form} {bytes : List UInt8} (eight : form = .data8 ∨ form = .ref8)
      (width : bytes.length = 8) : EncodesDirect form bytes none
  | unknown (code : UInt64) : EncodesDirect (.unknown code) [] none

/-- A chain of form codes, all of them indirect but the last. -/
inductive NamesForm : List UInt8 → Form → Prop
  | last {groups : List UInt8} {code : UInt64} (spelled : Leb128.Spells groups code.toNat)
      (direct : Form.ofCode code ≠ .indirect) : NamesForm groups (Form.ofCode code)
  | next {groups bytes : List UInt8} {code : UInt64} {named : Form}
      (spelled : Leb128.Spells groups code.toNat) (indirect : Form.ofCode code = .indirect)
      (rest : NamesForm bytes named) : NamesForm (groups ++ bytes) named

/-- The bytes of a value of any form, with the form that is named in the end. -/
inductive Encodes : Form → List UInt8 → Form × Option AttributeValue → Prop
  | direct {form : Form} {bytes : List UInt8} {value : Option AttributeValue}
      (encoded : v.EncodesDirect form bytes value) : Encodes form bytes (form, value)
  | indirect {codes bytes : List UInt8} {named : Form} {value : Option AttributeValue}
      (names : NamesForm codes named) (encoded : v.EncodesDirect named bytes value) :
      Encodes .indirect (codes ++ bytes) (named, value)

variable {v}

theorem reads_fixed {written : List UInt8} {width : Nat} {n : UInt64}
    (known : width = 1 ∨ width = 2 ∨ width = 4 ∨ width = 8)
    (length : some width = some written.length) (spelled : v.order.value written = n.toNat) :
    v.info.Reads (v.info.fixed width) n written := by
  rw [Section.fixed, if_pos known]
  exact Section.reads_spelled (Option.some.inj length).symm (by omega) spelled

/-- A block is read behind its length. -/
theorem reads_block_behind {α : Type} {x : Read α} {count : α → Nat} {a : α}
    {length content : List UInt8} (first : v.info.Reads x a length)
    (counted : count a = content.length) :
    v.info.Reads
      (x >>= fun a => v.info.block (count a) >>= fun bytes =>
        pure (some (AttributeValue.block bytes)))
      (some (.block content.toArray)) (length ++ content) :=
  first.bind ((Section.reads_block counted.symm).then_pure _)

theorem stringAt?_of_holds {offset : Nat} {text : List UInt8} (inner : 0 ∉ text)
    (there : v.strings.Holds offset (text ++ [0])) : v.stringAt? offset = some text.toArray := by
  have read := Section.reads_string (s := ⟨.strings, v.order, v.strings⟩) inner offset there
  rw [stringAt?, Read.value, read]
  rfl

theorem stringAt?_eq_none {offset : Nat} (absent : 0 ∉ v.strings.toList.drop offset) :
    v.stringAt? offset = none := by
  have index : v.strings.indexFrom? (· = 0) offset = none := by
    apply Bytes.indexFrom?_eq_none
    intro byte mem
    exact decide_eq_false fun zero => absent (zero ▸ mem)
  rw [stringAt?, Read.value]
  simp only [Section.string, Read.run_ofRun, index]
  rfl

/-- An offset is read as what is there among the strings. -/
theorem reads_strp {bytes : List UInt8} {text : Option Bytes} (width : bytes.length = 4)
    (found : v.stringAt? (v.order.value bytes) = text) :
    v.info.Reads (v.readDirect? .strp) (text.map .string) bytes := by
  obtain ⟨n, offset, read⟩ := Section.reads_uint32 (s := v.info) width
  have offset : n.toNat = v.order.value bytes := offset
  have reads : v.info.Reads (v.readDirect? .strp) ((v.stringAt? n.toNat).map .string) bytes :=
    read.then_pure _
  rwa [offset, found] at reads

theorem reads_readDirect? {form : Form} {bytes : List UInt8} {value : Option AttributeValue}
    (addressable : 1 ≤ v.addressSize ∧ v.addressSize ≤ 8)
    (encoded : v.EncodesDirect form bytes value) :
    v.info.Reads (v.readDirect? form) value bytes := by
  cases encoded with
  | address width spelled => exact (Section.reads_address addressable width spelled).then_pure _
  | number width spelled =>
    cases form
    case flag | data1 | data2 | data4 =>
      exact (reads_fixed (by decide) width spelled).then_pure _
    all_goals cases width
  | unsigned spelled => exact (Section.reads_unsigned spelled).then_pure _
  | signed spelled => exact (Section.reads_signed spelled).then_pure _
  | reference width spelled =>
    cases form
    case ref1 | ref2 | ref4 => exact (reads_fixed (by decide) width spelled).then_pure _
    all_goals cases width
  | referenceUnsigned spelled => exact (Section.reads_unsigned spelled).then_pure _
  | referenceAddress width spelled =>
    exact (Section.reads_address addressable width spelled).then_pure _
  | string inner => exact (Section.reads_string inner).then_pure _
  | stringOffset width inner there => exact reads_strp width (stringAt?_of_holds inner there)
  | noString width absent => exact reads_strp width (stringAt?_eq_none absent)
  | @block form length content width spelled =>
    cases form
    case block1 =>
      obtain ⟨n, count, read⟩ := Section.reads_uint8 (s := v.info) (Option.some.inj width).symm
      exact reads_block_behind read (count.trans spelled)
    case block2 =>
      obtain ⟨n, count, read⟩ := Section.reads_uint16 (s := v.info) (Option.some.inj width).symm
      exact reads_block_behind read (count.trans spelled)
    case block4 =>
      obtain ⟨n, count, read⟩ := Section.reads_uint32 (s := v.info) (Option.some.inj width).symm
      exact reads_block_behind read (count.trans spelled)
    all_goals cases width
  | @blockUnsigned length content fits spelled =>
    have counted : (UInt64.ofNat content.length).toNat = content.length :=
      UInt64.toNat_ofNat_of_lt' fits
    exact reads_block_behind (Section.reads_unsigned (counted.symm ▸ spelled)) counted
  | wide eight width =>
    rcases eight with rfl | rfl
    all_goals exact (Section.reads_skip width).then_pure _
  | unknown code => exact .pure _

theorem EncodesDirect.ne_indirect {form : Form} {bytes : List UInt8}
    {value : Option AttributeValue} (encoded : v.EncodesDirect form bytes value) :
    form ≠ .indirect := by
  rintro rfl
  cases encoded with
  | number width => cases width
  | reference width => cases width
  | block width => cases width
  | wide eight => simp at eight

theorem followIndirect_error {start : Nat} {e : Error}
    (read : v.info.unsigned.run start = .error e) : v.followIndirect start = .error e := by
  rw [followIndirect]
  split
  · rename_i failed
    cases failed.symm.trans read
    rfl
  · rename_i done
    cases done.symm.trans read

theorem followIndirect_last {start next : Nat} {code : UInt64}
    (read : v.info.unsigned.run start = .ok (code, next)) (direct : Form.ofCode code ≠ .indirect) :
    v.followIndirect start = .ok (Form.ofCode code, next) := by
  rw [followIndirect]
  split
  · rename_i failed
    rw [read] at failed
    cases failed
  · rename_i done
    rw [read] at done
    cases done
    split
    · rename_i indirect
      exact absurd indirect direct
    · rfl

theorem followIndirect_next {start next : Nat} {code : UInt64}
    (read : v.info.unsigned.run start = .ok (code, next))
    (indirect : Form.ofCode code = .indirect) :
    v.followIndirect start = v.followIndirect next := by
  rw [followIndirect]
  split
  · rename_i failed
    rw [read] at failed
    cases failed
  · rename_i done
    rw [read] at done
    cases done
    rw [indirect]

/-- The chain is followed to its last code, whatever comes behind. -/
theorem followIndirect_of_names {codes : List UInt8} {named : Form}
    (names : NamesForm codes named) {start : Nat} (h : v.information.Holds start codes) :
    v.followIndirect start = .ok (named, start + codes.length) := by
  induction names generalizing start with
  | last spelled direct =>
    exact followIndirect_last (Section.reads_unsigned spelled start h) direct
  | next spelled indirect rest ih =>
    have read := Section.reads_unsigned (s := v.info) spelled start h.left
    rw [followIndirect_next read indirect, ih h.right, List.length_append, Nat.add_assoc]

theorem reads_actualForm {codes : List UInt8} {named : Form} (names : NamesForm codes named) :
    v.info.Reads (v.actualForm .indirect) named codes := by
  intro start h
  rw [actualForm, Read.run_ofRun]
  exact followIndirect_of_names names h

theorem actualForm_of_ne {form : Form} (direct : form ≠ .indirect) :
    v.actualForm form = pure form := by
  cases form
  case indirect => exact absurd rfl direct
  all_goals rfl

/-- Every encoding of a value is read as the value, and no byte more is taken. -/
theorem reads_readValue? {form : Form} {bytes : List UInt8} {r : Form × Option AttributeValue}
    (addressable : 1 ≤ v.addressSize ∧ v.addressSize ≤ 8) (encoded : v.Encodes form bytes r) :
    v.info.Reads (v.readValue? form) r bytes := by
  cases encoded with
  | direct encoded =>
    rw [readValue?, actualForm_of_ne encoded.ne_indirect]
    exact (Section.Reads.pure form).bind ((reads_readDirect? addressable encoded).then_pure _)
  | indirect names encoded =>
    exact (reads_actualForm names).bind ((reads_readDirect? addressable encoded).then_pure _)

theorem reads_skipValue {form : Form} {bytes : List UInt8} {r : Form × Option AttributeValue}
    (addressable : 1 ≤ v.addressSize ∧ v.addressSize ≤ 8) (encoded : v.Encodes form bytes r) :
    v.info.Reads (v.skipValue form) () bytes := by
  intro start h
  have lands : (v.readValue? form).Lands start (start + bytes.length) :=
    ⟨r, reads_readValue? addressable encoded start h⟩
  obtain ⟨named, next, follows, skips, -⟩ := (v.lands_readValue?_iff ..).1 lands
  exact v.run_skipValue_eq_ok.2 ⟨named, next, follows, skips⟩

end UnitView
end Dwarf2
