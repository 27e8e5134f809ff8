/-
How the instructions of a line number program are read one after another.

`collectFrom` tells what is read from a position on, without the list that the instructions are
gathered in.  It goes by the bytes behind the position alone: `collectFrom_alike`.
-/
import Dwarf2.Line.Instruction
import Dwarf2.Proofs.Section.Carried

namespace Dwarf2
namespace Line
namespace Instruction

variable {s s' : Section} {h : Header} {addressSize : UInt8} {instructions : List Instruction}
  {inside : Bool} {start : Nat}

/-! ## One after another -/

theorem collectOnto_done (done : !inside && s.bytes.size ≤ start) :
    collectOnto s h addressSize instructions inside start = (instructions, .ok ()) := by
  rw [collectOnto, if_pos done]

theorem collectOnto_error (more : ¬(!inside && s.bytes.size ≤ start)) {e : Error}
    (run : (read s h addressSize).run start = .error e) :
    collectOnto s h addressSize instructions inside start = (instructions, .error e) := by
  rw [collectOnto, if_neg more]
  split
  · rename_i failed
    cases failed.symm.trans run
    rfl
  · rename_i done
    cases done.symm.trans run

theorem collectOnto_ok (more : ¬(!inside && s.bytes.size ≤ start)) {i : Instruction} {next : Nat}
    (run : (read s h addressSize).run start = .ok (i, next)) :
    collectOnto s h addressSize instructions inside start =
      collectOnto s h addressSize (i :: instructions) (i ≠ .endSequence) next := by
  rw [collectOnto, if_neg more]
  split
  · rename_i failed
    cases failed.symm.trans run
  · rename_i done
    cases done.symm.trans run
    rfl

theorem collectOnto_append (s : Section) (h : Header) (addressSize : UInt8)
    (instructions : List Instruction) (inside : Bool) (start : Nat) :
    collectOnto s h addressSize instructions inside start =
      ((collectOnto s h addressSize [] inside start).1 ++ instructions,
        (collectOnto s h addressSize [] inside start).2) := by
  by_cases done : !inside && s.bytes.size ≤ start
  · rw [collectOnto_done done, collectOnto_done done]
    rfl
  match run : (read s h addressSize).run start with
  | .error e =>
    rw [collectOnto_error done run, collectOnto_error done run]
    rfl
  | .ok (i, next) =>
    have := read_progresses s h addressSize start i next run
    rw [collectOnto_ok done run, collectOnto_ok done run,
      collectOnto_append s h addressSize (i :: instructions),
      collectOnto_append s h addressSize [i], List.append_assoc]
    rfl
termination_by s.bytes.size - start

/-- The instructions from a position on, which may be inside a sequence, and why the reading
ended. -/
def collectFrom (s : Section) (h : Header) (addressSize : UInt8) (inside : Bool) (start : Nat) :
    List Instruction × Except Error Unit :=
  let r := collectOnto s h addressSize [] inside start
  (r.1.reverse, r.2)

theorem collect_eq (s : Section) (h : Header) (addressSize : UInt8) (start : Nat) :
    collect s h addressSize start = collectFrom s h addressSize false start :=
  rfl

/-- Where the program ends is told by the section that it is read from. -/
theorem collectFrom_stop (s : Section) (h : Header) (stop : Nat) (addressSize : UInt8)
    (inside : Bool) (start : Nat) :
    collectFrom s { h with stop } addressSize inside start =
      collectFrom s h addressSize inside start := by
  have onto (instructions : List Instruction) (inside : Bool) (start : Nat) :
      collectOnto s { h with stop } addressSize instructions inside start =
        collectOnto s h addressSize instructions inside start := by
    fun_induction collectOnto s h addressSize instructions inside start with
    | case1 _ _ _ done => exact collectOnto_done done
    | case2 _ _ _ more e run => exact collectOnto_error more run
    | case3 _ _ _ more i next run _ ih =>
      have run : (read s { h with stop } addressSize).run _ = .ok (i, next) := run
      rw [collectOnto_ok more run, ih]
  rw [collectFrom, onto, collectFrom]

theorem collectFrom_done (done : !inside && s.bytes.size ≤ start) :
    collectFrom s h addressSize inside start = ([], .ok ()) := by
  rw [collectFrom, collectOnto_done done]
  rfl

theorem collectFrom_error (more : ¬(!inside && s.bytes.size ≤ start)) {e : Error}
    (run : (read s h addressSize).run start = .error e) :
    collectFrom s h addressSize inside start = ([], .error e) := by
  rw [collectFrom, collectOnto_error more run]
  rfl

theorem collectFrom_ok {i : Instruction} {next : Nat}
    (run : (read s h addressSize).run start = .ok (i, next)) :
    collectFrom s h addressSize inside start =
      (i :: (collectFrom s h addressSize (i ≠ .endSequence) next).1,
        (collectFrom s h addressSize (i ≠ .endSequence) next).2) := by
  have more : ¬(!inside && s.bytes.size ≤ start) := by
    have := (read_progresses s h addressSize start i next run).1
    simp [this]
  rw [collectFrom, collectOnto_ok more run, collectOnto_append]
  simp [collectFrom]

/-! ## What is read goes by the bytes -/

theorem carries_readOperands (s s' : Section) (count : Nat) :
    s.Carries s' (readOperands s count) (readOperands s' count) := by
  induction count with
  | zero => exact .pure ()
  | succ count ih => exact .bind (Section.carries_leb128 s s') fun _ => ih

theorem carries_readExtended (same : s'.order = s.order) (addressSize : UInt8) :
    s.Carries s' (readExtended s addressSize) (readExtended s' addressSize) := by
  refine .bind (Section.carries_unsigned s s') fun length => ?_
  refine .ite (fun _ => .pure _) fun _ => ?_
  refine .bind (Section.carries_uint8 same) fun opcode => ?_
  split
  · exact .pure _
  · exact .bind (Section.carries_address same _) fun _ => .pure _
  · exact .bind (Section.carries_string s s') fun _ =>
      .bind (carries_readOperands s s' 3) fun _ => .pure _
  · exact .bind (Section.carries_skip s s' _) fun _ => .pure _

theorem carries_readStandard (same : s'.order = s.order) (h : Header)
    (addressSize opcode : UInt8) :
    s.Carries s' (readStandard s h addressSize opcode) (readStandard s' h addressSize opcode) := by
  unfold readStandard
  split
  · exact carries_readExtended same addressSize
  · exact .pure _
  · exact .bind (Section.carries_unsigned s s') fun _ => .pure _
  · exact .bind (Section.carries_signed s s') fun _ => .pure _
  · exact .bind (Section.carries_unsigned s s') fun _ => .pure _
  · exact .bind (Section.carries_unsigned s s') fun _ => .pure _
  · exact .pure _
  · exact .pure _
  · exact .pure _
  · exact .bind (Section.carries_uint16 same) fun _ => .pure _
  · exact .bind (carries_readOperands s s' _) fun _ => .pure _

theorem carries_read (same : s'.order = s.order) (h : Header) (addressSize : UInt8) :
    s.Carries s' (read s h addressSize) (read s' h addressSize) :=
  .bind (Section.carries_uint8 same) fun _ =>
    .ite (fun _ => .pure _) fun _ => carries_readStandard same h addressSize _

/-- Two ways of reading give the same instructions, and end well or not alike.  Where a failure
was is not compared. -/
def Alike (r r' : List Instruction × Except Error Unit) : Prop :=
  r.1 = r'.1 ∧ r.2.toOption = r'.2.toOption

theorem Alike.cons {r r' : List Instruction × Except Error Unit} (h : Alike r r')
    (i : Instruction) : Alike (i :: r.1, r.2) (i :: r'.1, r'.2) :=
  ⟨congrArg (i :: ·) h.1, h.2⟩

theorem collectFrom_alike (same : s'.order = s.order) (h : Header) (addressSize : UInt8)
    (inside : Bool) {start start' : Nat} (there : start ≤ s.bytes.size)
    (there' : start' ≤ s'.bytes.size) (rest : s'.bytes.rest start' = s.bytes.rest start) :
    Alike (collectFrom s h addressSize inside start)
      (collectFrom s' h addressSize inside start') := by
  have ends : s'.bytes.size ≤ start' ↔ s.bytes.size ≤ start := by
    rw [← Bytes.rest_eq_nil_iff, rest, Bytes.rest_eq_nil_iff]
  by_cases done : !inside && s.bytes.size ≤ start
  · have done' : !inside && s'.bytes.size ≤ start' := by simpa [ends] using done
    rw [collectFrom_done done, collectFrom_done done']
    exact ⟨rfl, rfl⟩
  have more : ¬(!inside && s'.bytes.size ≤ start') := by simpa [ends] using done
  match run : (read s h addressSize).run start with
  | .ok (i, next) =>
    have := read_progresses s h addressSize start i next run
    obtain ⟨le, next', run', le', rest'⟩ :=
      (carries_read same h addressSize).run_alike there there' rest run
    rw [collectFrom_ok run, collectFrom_ok run']
    exact (collectFrom_alike same h addressSize _ le le' rest').cons i
  | .error e =>
    obtain ⟨e', run'⟩ := (carries_read same.symm h addressSize).error_alike there there' rest run
    rw [collectFrom_error done run, collectFrom_error more run']
    exact ⟨rfl, rfl⟩
termination_by s.bytes.size - start

end Instruction
end Line
end Dwarf2
