/-
Passing over a value takes the bytes that reading it takes.

The two are written apart: what is passed over goes by the length of the form where it has one,
and what is read goes by the form.  `lands_readDirect?_iff` compares them form by form.  Only
addresses differ, because their size is checked where one is read and not where one is passed
over.
-/
import Dwarf2.Proofs.Section.Landing
import Dwarf2.UnitView

namespace Dwarf2
namespace UnitView

variable (v : UnitView)

/-- A value of the form is an address, and the unit has addresses of a size that cannot be
read. -/
def Unaddressable (form : Form) : Prop :=
  (form = .addr ∨ form = .refAddr) ∧ ¬(1 ≤ v.addressSize ∧ v.addressSize ≤ 8)

/-- A number and the groups that it is read from end alike. -/
theorem lands_unsigned (start stop : Nat) :
    v.info.unsigned.Lands start stop ↔ v.info.leb128.Lands start stop :=
  Read.lands_map _ _ start stop

theorem lands_readDirect?_iff (form : Form) (start stop : Nat) :
    (v.readDirect? form).Lands start stop ↔
      (v.skipDirect form).Lands start stop ∧ ¬v.Unaddressable form := by
  cases form
  case addr | refAddr =>
    simp [readDirect?, skipDirect, Form.length?, Unaddressable, Section.lands_address]
  case flag | data1 | data2 | data4 | ref1 | ref2 | ref4 =>
    simp [readDirect?, skipDirect, Form.length?, Unaddressable, Section.lands_fixed]
  case strp =>
    simp [readDirect?, skipDirect, Form.length?, Unaddressable, Section.uint32]
  case udata | refUdata =>
    simp [readDirect?, skipDirect, Form.length?, Unaddressable, lands_unsigned]
  case sdata =>
    simp [readDirect?, skipDirect, Form.length?, Unaddressable, Section.signed]
  case block1 | block2 | block4 | block =>
    simp [readDirect?, skipDirect, Form.length?, Unaddressable, Section.lands_block_behind]
  case data8 | ref8 | string | indirect | unknown =>
    simp [readDirect?, skipDirect, Form.length?, Unaddressable]

theorem lands_readValue?_iff (form : Form) (start stop : Nat) :
    (v.readValue? form).Lands start stop ↔
      ∃ named next, (v.actualForm form).run start = .ok (named, next) ∧
        (v.skipDirect named).Lands next stop ∧ ¬v.Unaddressable named := by
  rw [readValue?, Read.lands_bind]
  refine exists_congr fun named => exists_congr fun next => and_congr_right fun _ => ?_
  rw [Read.lands_bind_pure, lands_readDirect?_iff]

theorem run_skipValue_eq_ok {form : Form} {start stop : Nat} :
    (v.skipValue form).run start = .ok ((), stop) ↔
      ∃ named next, (v.actualForm form).run start = .ok (named, next) ∧
        (v.skipDirect named).Lands next stop := by
  rw [skipValue, Read.run_bind_eq_ok]
  refine exists_congr fun named => exists_congr fun next => and_congr_right fun _ => ?_
  constructor
  · intro eq
    exact ⟨(), eq⟩
  · rintro ⟨⟨⟩, eq⟩
    exact eq

/-- A value is read where it can be passed over, and with the same end, unless it turns out to
be an address that cannot be read. -/
theorem readValue?_iff_skipValue (form : Form) (start stop : Nat) :
    (∃ r, (v.readValue? form).run start = .ok (r, stop)) ↔
      (v.skipValue form).run start = .ok ((), stop) ∧
        ¬∃ named next, (v.actualForm form).run start = .ok (named, next) ∧
          v.Unaddressable named := by
  rw [run_skipValue_eq_ok]
  constructor
  · intro reads
    obtain ⟨named, next, follows, skips, addressable⟩ := (v.lands_readValue?_iff ..).1 reads
    refine ⟨⟨named, next, follows, skips⟩, ?_⟩
    rintro ⟨named', next', follows', unaddressable⟩
    rw [follows] at follows'
    cases follows'
    exact addressable unaddressable
  · rintro ⟨⟨named, next, follows, skips⟩, addressable⟩
    apply (v.lands_readValue?_iff ..).2
    exact ⟨named, next, follows, skips, fun h => addressable ⟨named, next, follows, h⟩⟩

/-! ## Inside the section -/

theorem le_size_of_skipDirect {form : Form} {start stop : Nat}
    (h : (v.skipDirect form).Lands start stop) (inside : start ≤ v.information.size) :
    stop ≤ v.information.size := by
  cases form
  case udata | sdata | refUdata =>
    exact v.info.le_size_of_leb128 ((Read.lands_bind_pure ..).1 h)
  case string =>
    exact v.info.le_size_of_string ((Read.lands_bind_pure ..).1 h)
  case block1 | block2 | block4 | block =>
    obtain ⟨count, middle, -, skips⟩ := Read.lands_bind.1 h
    exact ((v.info.lands_skip ..).1 skips).2
  case indirect | unknown =>
    exact (Read.lands_pure ..).1 h ▸ inside
  -- The others have a length.
  all_goals exact ((v.info.lands_skip ..).1 h).2

theorem le_size_of_followIndirect {start stop : Nat} {form : Form}
    (eq : v.followIndirect start = .ok (form, stop)) : stop ≤ v.information.size := by
  fun_induction followIndirect v start with
  | case1 => cases eq
  | case2 start code next read _ _ ih => exact ih eq
  | case3 start code next read =>
    cases eq
    exact v.info.le_size_of_leb128 ((v.lands_unsigned ..).1 ⟨code, read⟩)

theorem le_size_of_skipValue {form : Form} {start stop : Nat}
    (eq : (v.skipValue form).run start = .ok ((), stop))
    (inside : start ≤ v.information.size) : stop ≤ v.information.size := by
  obtain ⟨named, next, follows, skips⟩ := v.run_skipValue_eq_ok.1 eq
  refine v.le_size_of_skipDirect skips ?_
  unfold actualForm at follows
  split at follows
  · rw [Read.run_ofRun] at follows
    exact v.le_size_of_followIndirect follows
  · cases follows
    exact inside

end UnitView
end Dwarf2
