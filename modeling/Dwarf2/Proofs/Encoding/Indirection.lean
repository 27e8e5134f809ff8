/-
Values behind any number of indirections.

`Encodable` says which values a form has an encoding of.  Form codes that lead to a form are
followed one by one, however they are padded, and the value behind them is read as if the form had
been given at once.  Where there is nothing but indirections, the section ends before a form is
named.
-/
import Dwarf2.Proofs.Encoding
import Dwarf2.Proofs.Section.Taken

namespace Dwarf2
namespace UnitView

/-- The values that a form can encode.  What cannot be represented is none. -/
def Encodable (v : UnitView) (form : Form) : Option AttributeValue → Prop
  | some (.address n) => form = .addr ∧ n.toNat < 256 ^ v.addressSize.toNat
  | some (.unsigned n) =>
    form = .udata ∨ ∃ width, form.numberWidth? = some width ∧ n.toNat < 256 ^ width
  | some (.signed _) => form = .sdata
  | some (.reference target) =>
    (form = .refAddr ∧ target < 256 ^ v.addressSize.toNat ∧ target ≤ lastOffset) ∨
      ∃ n : UInt64, target = min (v.base + n.toNat) lastOffset ∧
        (form = .refUdata ∨ ∃ width, form.referenceWidth? = some width ∧ n.toNat < 256 ^ width)
  | some (.string text) =>
    0 ∉ text.toList ∧ (form = .string ∨
      form = .strp ∧ ∃ offset < 256 ^ 4, v.strings.Holds offset (text.toList ++ [0]))
  | some (.block content) =>
    (form = .block ∧ content.size < 2 ^ 64) ∨
      ∃ width, form.blockWidth? = some width ∧ content.size < 256 ^ width
  | none =>
    form = .data8 ∨ form = .ref8 ∨ (∃ code, form = .unknown code) ∨
      form = .strp ∧ ∃ offset < 256 ^ 4, 0 ∉ v.strings.toList.drop offset

variable {v : UnitView} {form : Form} {value : Option AttributeValue}

theorem EncodesDirect.encodable {bytes : List UInt8} (encoded : v.EncodesDirect form bytes value) :
    v.Encodable form value := by
  have fits (bytes : List UInt8) := v.order.value_lt bytes
  cases encoded with
  | address width spelled => exact ⟨rfl, spelled ▸ width ▸ fits _⟩
  | number width spelled => exact .inr ⟨_, width, spelled ▸ fits _⟩
  | unsigned => exact .inl rfl
  | signed => rfl
  | @reference _ _ n width spelled => exact .inr ⟨n, rfl, .inr ⟨_, width, spelled ▸ fits _⟩⟩
  | @referenceUnsigned _ n => exact .inr ⟨n, rfl, .inl rfl⟩
  | @referenceAddress _ n width spelled =>
    exact .inl ⟨rfl, spelled ▸ width ▸ fits _, Nat.le_of_lt_succ n.toNat_lt⟩
  | string inner => exact ⟨inner, .inl rfl⟩
  | stringOffset width inner there => exact ⟨inner, .inr ⟨rfl, _, width ▸ fits _, there⟩⟩
  | noString width absent => exact .inr (.inr (.inr ⟨rfl, _, width ▸ fits _, absent⟩))
  | @block _ _ content width spelled =>
    have size : content.toArray.size = v.order.value _ := List.size_toArray.trans spelled.symm
    exact .inr ⟨_, width, size ▸ fits _⟩
  | @blockUnsigned _ content fits => exact .inl ⟨rfl, fits⟩
  | wide eight => exact eight.imp_right .inl
  | unknown code => exact .inr (.inr (.inl ⟨code, rfl⟩))

theorem exists_encodesDirect (encodable : v.Encodable form value) :
    ∃ bytes, v.EncodesDirect form bytes value := by
  match value with
  | some (.address n) =>
    obtain ⟨rfl, fits⟩ := encodable
    obtain ⟨bytes, width, spelled⟩ := v.order.exists_value _ fits
    exact ⟨bytes, .address width spelled⟩
  | some (.unsigned n) =>
    rcases encodable with rfl | ⟨width, known, fits⟩
    · exact ⟨_, .unsigned (Leb128.spells_shortest n.toNat)⟩
    · obtain ⟨bytes, rfl, spelled⟩ := v.order.exists_value width fits
      exact ⟨bytes, .number known spelled⟩
  | some (.signed n) =>
    obtain rfl := encodable
    exact ⟨_, .signed (Leb128.spellsSigned_shortestSigned n.toInt)⟩
  | some (.reference target) =>
    rcases encodable with ⟨rfl, fits, low⟩ | ⟨n, rfl, rfl | ⟨width, known, fits⟩⟩
    · obtain ⟨bytes, width, spelled⟩ := v.order.exists_value _ fits
      have exact : (UInt64.ofNat target).toNat = target :=
        UInt64.toNat_ofNat_of_lt' (Nat.lt_succ_of_le low)
      have encoded := EncodesDirect.referenceAddress (v := v) width (spelled.trans exact.symm)
      exact ⟨bytes, exact ▸ encoded⟩
    · exact ⟨_, .referenceUnsigned (Leb128.spells_shortest n.toNat)⟩
    · obtain ⟨bytes, rfl, spelled⟩ := v.order.exists_value width fits
      exact ⟨bytes, .reference known spelled⟩
  | some (.string text) =>
    obtain ⟨inner, rfl | ⟨rfl, offset, fits, there⟩⟩ := encodable
    · exact ⟨_, .string inner⟩
    · obtain ⟨bytes, width, rfl⟩ := v.order.exists_value 4 fits
      exact ⟨bytes, .stringOffset width inner there⟩
  | some (.block content) =>
    rcases encodable with ⟨rfl, fits⟩ | ⟨width, known, fits⟩
    · exact ⟨_, .blockUnsigned fits (Leb128.spells_shortest content.size)⟩
    · obtain ⟨length, rfl, spelled⟩ := v.order.exists_value width fits
      have counted : v.order.value length = content.toList.length := spelled
      exact ⟨_, .block known counted⟩
  | none =>
    rcases encodable with rfl | rfl | ⟨code, rfl⟩ | ⟨rfl, offset, fits, absent⟩
    · exact ⟨List.replicate 8 0, .wide (.inl rfl) rfl⟩
    · exact ⟨List.replicate 8 0, .wide (.inr rfl) rfl⟩
    · exact ⟨[], .unknown code⟩
    · obtain ⟨bytes, width, rfl⟩ := v.order.exists_value 4 fits
      exact ⟨bytes, .noString width absent⟩

/-! ## Form codes -/

/-- The groups spell a code of the form. -/
def Names (groups : List UInt8) (form : Form) : Prop :=
  ∃ code, Leb128.Saturates groups code ∧ Form.ofCode code = form

/-- Form codes, all of them of indirect forms but the last.  No codes lead to any form. -/
structure Leads (codes : List (List UInt8)) (form : Form) : Prop where
  indirect : ∀ code ∈ codes.dropLast, Names code .indirect
  named : ∀ code ∈ codes.getLast?, Names code form

theorem Leads.tail {code : List UInt8} {codes : List (List UInt8)} (more : codes ≠ [])
    (leads : Leads (code :: codes) form) : Names code .indirect ∧ Leads codes form := by
  obtain ⟨next, rest, rfl⟩ := List.exists_cons_of_ne_nil more
  refine ⟨leads.indirect code List.mem_cons_self, ?_, ?_⟩
  · exact fun other mem => leads.indirect other (List.mem_cons_of_mem _ mem)
  · exact fun last mem => leads.named last mem

theorem followIndirect_of_leads {codes : List (List UInt8)} (some : codes ≠ [])
    (leads : Leads codes form) (direct : form ≠ .indirect) {start : Nat}
    (h : v.information.Holds start codes.flatten) :
    v.followIndirect start = .ok (form, start + codes.flatten.length) := by
  induction codes generalizing start with
  | nil => exact absurd rfl some
  | cons groups codes ih =>
    rw [List.flatten_cons] at h ⊢
    by_cases last : codes = []
    · subst last
      obtain ⟨code, spelled, rfl⟩ := leads.named groups rfl
      rw [List.flatten_nil, List.append_nil]
      exact followIndirect_last (Section.reads_saturated spelled start h.left) direct
    · obtain ⟨⟨code, spelled, indirect⟩, leads⟩ := leads.tail last
      have read := Section.reads_saturated (s := v.info) spelled start h.left
      rw [followIndirect_next read indirect, ih last leads h.right, List.length_append,
        Nat.add_assoc]

theorem reads_actualForm_of_leads {codes : List (List UInt8)} (leads : Leads codes form)
    (direct : form ≠ .indirect) :
    v.info.Reads (v.actualForm (if codes.isEmpty then form else .indirect)) form codes.flatten := by
  cases codes with
  | nil =>
    rw [List.isEmpty_nil, if_pos rfl, actualForm_of_ne direct]
    exact .pure form
  | cons code codes =>
    intro start h
    rw [List.isEmpty_cons, if_neg Bool.false_ne_true, actualForm, Read.run_ofRun]
    exact followIndirect_of_leads (List.cons_ne_nil code codes) leads direct h

/-- Indirections are followed up to the number that is not brought to its end. -/
theorem followIndirect_of_indirect {codes : List (List UInt8)} {tail : List UInt8}
    (indirect : ∀ code ∈ codes, Names code .indirect)
    (unended : ∀ group ∈ tail, Leb128.isLast group = false) {start : Nat}
    (rest : v.information.rest start = codes.flatten ++ tail) :
    v.followIndirect start =
      .error (.malformed .information (.truncated (start + codes.flatten.length) .leb128)) := by
  induction codes generalizing start with
  | nil =>
    apply followIndirect_error
    rw [List.flatten_nil, List.nil_append] at rest
    have none := Bytes.indexFrom?_eq_none_iff.2 (rest ▸ unended)
    rw [Section.unsigned, Read.run_map, Section.leb128, Read.run_ofRun, Leb128.last?, info, none]
    rfl
  | cons groups codes ih =>
    obtain ⟨here, later⟩ := List.forall_mem_cons.1 indirect
    obtain ⟨code, spelled, indirect⟩ := here
    rw [List.flatten_cons, List.append_assoc] at rest
    -- Behind the end of the section there are no codes.
    have there : start ≤ v.information.size := by
      by_contra outside
      rw [Bytes.rest_eq_nil_iff.2 (Nat.le_of_not_le outside)] at rest
      exact spelled.1.ne_nil (List.append_eq_nil_iff.1 rest.symm).1
    have read := Section.reads_saturated (s := v.info) spelled start
      (Bytes.holds_of_rest there rest)
    rw [followIndirect_next read indirect, ih later (Bytes.rest_add rest), List.flatten_cons,
      List.length_append, Nat.add_assoc]

/-- Whatever a form can encode is read back behind any number of indirections that lead to the form,
and nothing behind it is touched.  Indirections without end are an error where the section ends. -/
theorem readValue?_behind_codes (v : UnitView) (codes : List (List UInt8)) (start : Nat) :
    (∀ form value, v.Encodable form value ↔ ∃ encoding, v.EncodesDirect form encoding value) ∧
      (∀ form encoding value, 1 ≤ v.addressSize ∧ v.addressSize ≤ 8 →
        v.EncodesDirect form encoding value → Leads codes form →
          v.information.Holds start (codes.flatten ++ encoding) →
            (v.readValue? (if codes.isEmpty then form else .indirect)).run start =
              .ok ((form, value), start + (codes.flatten ++ encoding).length)) ∧
      ∀ tail, (∀ code ∈ codes, Names code .indirect) →
        (∀ group ∈ tail, Leb128.isLast group = false) →
          v.information.rest start = codes.flatten ++ tail →
            (v.readValue? .indirect).run start = .error
              (.malformed .information (.truncated (start + codes.flatten.length) .leb128)) := by
  refine ⟨fun form value => ⟨exists_encodesDirect, fun ⟨_, encoded⟩ => encoded.encodable⟩, ?_, ?_⟩
  · intro form encoding value addressable encoded leads holds
    have named := reads_actualForm_of_leads (v := v) leads encoded.ne_indirect
    have reads := (reads_readDirect? addressable encoded).then_pure fun value => (form, value)
    exact (named.bind reads) start holds
  · intro tail indirect unended rest
    rw [readValue?, Read.run_bind, actualForm, Read.run_ofRun,
      followIndirect_of_indirect indirect unended rest]
    rfl

/-- The first code is padded, and the last number of the section is cut off. -/
theorem readValue?_behind_padded :
    let v : UnitView := ⟨.big, #[0xff, 0x96, 0x00, 0x16, 0x11, 0x05, 0x16, 0x96], #[], 0x10, 4⟩
    (v.readValue? .indirect).run 1 = .ok ((.ref1, some (.reference 0x15)), 6) ∧
      (v.readValue? .indirect).run 6 =
        .error (.malformed .information (.truncated 7 .leb128)) := by
  intro v
  have padded : Names [0x96, 0x00] .indirect :=
    ⟨0x16, ⟨.cons (by decide) (.single (by decide)), by decide⟩, rfl⟩
  have single : Names [0x16] .indirect := ⟨0x16, ⟨.single (by decide), by decide⟩, rfl⟩
  have ref1 : Names [0x11] .ref1 := ⟨0x11, ⟨.single (by decide), by decide⟩, rfl⟩
  have leads : Leads [[0x96, 0x00], [0x16], [0x11]] .ref1 := by
    refine ⟨List.forall_mem_cons.2 ⟨padded, List.forall_mem_singleton.2 single⟩, ?_⟩
    rintro _ ⟨⟩
    exact ref1
  have encoded : v.EncodesDirect .ref1 [0x05] (some (.reference 0x15)) :=
    .reference (n := 5) rfl (by decide)
  have holds : v.information.Holds 1 ([[0x96, 0x00], [0x16], [0x11]].flatten ++ [0x05]) :=
    ⟨[0xff], [0x16, 0x96], rfl, rfl⟩
  obtain ⟨-, reads, -⟩ := readValue?_behind_codes v [[0x96, 0x00], [0x16], [0x11]] 1
  obtain ⟨-, -, cut⟩ := readValue?_behind_codes v [[0x16]] 6
  exact ⟨reads .ref1 [0x05] _ (by decide) encoded leads holds,
    cut [0x96] (List.forall_mem_singleton.2 single) (List.forall_mem_singleton.2 rfl) rfl⟩

end UnitView
end Dwarf2
