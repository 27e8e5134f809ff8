/-
How a location expression is evaluated, operation by operation.

`evaluate` begins at any position and with any location.  It goes by the bytes behind the position
alone: `evaluate_alike`.
-/
import Dwarf2.Location
import Dwarf2.Proofs.Section.Carried

namespace Dwarf2
namespace Location

variable {s s' : Section} {addressSize : UInt8} {l : Location} {op : Operation} {start next : Nat}

namespace Operation

theorem carries_readOperands (same : s'.order = s.order) (addressSize opcode : UInt8) :
    s.Carries s' (readOperands s addressSize opcode) (readOperands s' addressSize opcode) := by
  unfold readOperands
  split
  · exact (Section.carries_address same _).bind fun _ => .pure _
  · exact (Section.carries_uint8 same).bind fun _ => .pure _
  · exact (Section.carries_int8 same).bind fun _ => .pure _
  · exact (Section.carries_uint16 same).bind fun _ => .pure _
  · exact (Section.carries_uint16 same).bind fun _ => .pure _
  · exact (Section.carries_uint32 same).bind fun _ => .pure _
  · exact (Section.carries_uint32 same).bind fun _ => .pure _
  · exact (Section.carries_unsigned s s').bind fun _ => .pure _
  · exact (Section.carries_signed s s').bind fun _ => .pure _
  · exact (Section.carries_unsigned s s').bind fun _ => .pure _
  · exact (Section.carries_signed s s').bind fun _ => .pure _
  · exact (Section.carries_unsigned s s').bind fun _ => .pure _
  · refine .ite (fun _ => .pure _) fun _ => .ite (fun _ => ?_) fun _ => .pure _
    exact (Section.carries_signed s s').bind fun _ => .pure _

theorem carries_read (same : s'.order = s.order) (addressSize : UInt8) :
    s.Carries s' (read s addressSize) (read s' addressSize) :=
  (Section.carries_uint8 same).bind fun opcode => carries_readOperands same addressSize opcode

theorem run_nextSupported? (s : Section) (addressSize : UInt8) (start : Nat) :
    (nextSupported? s addressSize).run start =
      if s.bytes.size ≤ start then .ok (none, start)
      else ((read s addressSize).run start).map fun r =>
        (if r.1.isSupported then some r.1 else none, r.2) := by
  rw [nextSupported?, Section.run_untilEnd, Read.run_map]

theorem run_expression (s : Section) (addressSize : UInt8) (start : Nat) :
    (expression s addressSize).run start =
      match (nextSupported? s addressSize).run start with
      | .error e => .error e
      | .ok (none, stop) => .ok ([], stop)
      | .ok (some op, next) =>
        ((expression s addressSize).run next).map fun r => (op :: r.1, r.2) := by
  have progress : (nextSupported? s addressSize).ItemsProgress s.bytes.size :=
    s.untilEnd_itemsProgress ((read_progresses s addressSize).map _)
  refine (Read.run_many progress start).trans ?_
  rcases (nextSupported? s addressSize).run start with _ | ⟨_ | _, _⟩ <;> rfl

end Operation

/-- What a location has become when the expression ends that begins at the position. -/
def evaluate (s : Section) (addressSize : UInt8) (l : Location) (start : Nat) : Option Location :=
  ((Operation.expression s addressSize).value start).toOption.map (List.foldl step l)

theorem toOption_ofExpression (order : ByteOrder) (addressSize : UInt8) (expression : Bytes) :
    (ofExpression order addressSize expression).toOption =
      evaluate ⟨.information, order, expression⟩ addressSize (constant 0) 0 := by
  unfold ofExpression evaluate
  cases (Operation.expression ⟨.information, order, expression⟩ addressSize).value 0 <;> rfl

theorem evaluate_done (done : s.bytes.size ≤ start) : evaluate s addressSize l start = some l := by
  rw [evaluate, Read.value, Operation.run_expression, Operation.run_nextSupported?, if_pos done]
  rfl

theorem evaluate_error (more : ¬s.bytes.size ≤ start) {e : Error}
    (run : (Operation.read s addressSize).run start = .error e) :
    evaluate s addressSize l start = none := by
  rw [evaluate, Read.value, Operation.run_expression, Operation.run_nextSupported?, if_neg more,
    run]
  rfl

/-- An operation that is not supported is the last. -/
theorem evaluate_ok (run : (Operation.read s addressSize).run start = .ok (op, next)) :
    evaluate s addressSize l start =
      if op.isSupported then evaluate s addressSize (l.step op) next else some l := by
  have more : ¬s.bytes.size ≤ start :=
    Nat.not_le.2 (Operation.read_progresses s addressSize start op next run).1
  rw [evaluate, Read.value, Operation.run_expression, Operation.run_nextSupported?, if_neg more,
    run]
  cases supported : op.isSupported with
  | false =>
    simp only [Except.map, supported, Bool.false_eq_true, if_false]
    rfl
  | true =>
    simp only [Except.map, supported, if_true]
    rw [evaluate, Read.value]
    cases (Operation.expression s addressSize).run next <;> rfl

theorem evaluate_alike (same : s'.order = s.order) (addressSize : UInt8) (l : Location)
    {start start' : Nat} (there : start ≤ s.bytes.size) (there' : start' ≤ s'.bytes.size)
    (rest : s'.bytes.rest start' = s.bytes.rest start) :
    evaluate s' addressSize l start' = evaluate s addressSize l start := by
  have ends : s'.bytes.size ≤ start' ↔ s.bytes.size ≤ start := by
    rw [← Bytes.rest_eq_nil_iff, rest, Bytes.rest_eq_nil_iff]
  by_cases done : s.bytes.size ≤ start
  · rw [evaluate_done done, evaluate_done (ends.2 done)]
  match run : (Operation.read s addressSize).run start with
  | .ok (op, next) =>
    have := Operation.read_progresses s addressSize start op next run
    obtain ⟨le, next', run', le', rest'⟩ :=
      (Operation.carries_read same addressSize).run_alike there there' rest run
    rw [evaluate_ok run, evaluate_ok run', evaluate_alike same addressSize _ le le' rest']
  | .error e =>
    obtain ⟨e', run'⟩ :=
      (Operation.carries_read same.symm addressSize).error_alike there there' rest run
    rw [evaluate_error done run, evaluate_error (mt ends.1 done) run']
termination_by s.bytes.size - start

end Location
end Dwarf2
