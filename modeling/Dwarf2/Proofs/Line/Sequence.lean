/-
The sequences of a line number program.

The registers start anew behind the end of a sequence, so that its rows are the same whatever comes
before it.  A program of complete sequences has the rows of each of them, one after another, and
their order is all that the order of the sequences makes a difference to.  As a function has a
fact once at most, it does not matter which row brings it: `run_of_perm`, and `checkedRun_of_perm`
for a program that looks for the places of lines by halving.
-/
import Dwarf2.Proofs.Line.Compression
import Dwarf2.Proofs.Line.Repetition

namespace Dwarf2
namespace Line

/-- Every sequence comes to its end.  The first of them has begun already if `inside`. -/
def Complete : (inside : Bool) → List Instruction → Prop
  | inside, [] => inside = false
  | _, i :: rest => Complete (i ≠ .endSequence) rest

instance Complete.decidable :
    (inside : Bool) → (l : List Instruction) → Decidable (Complete inside l)
  | inside, [] => inferInstanceAs (Decidable (inside = false))
  | _, i :: rest => decidable (i ≠ .endSequence) rest

variable {s s' : Section} {order : ByteOrder} {h : Header} {addressSize : UInt8} {base : UInt64}
  {inside : Bool} {start : Nat} {instructions more : List Instruction}

namespace Complete

theorem append (complete : Complete inside instructions) (complete' : Complete false more) :
    Complete inside (instructions ++ more) := by
  induction instructions generalizing inside with
  | nil =>
    cases (show inside = false from complete)
    exact complete'
  | cons i rest ih => exact ih complete

theorem flatten {sequences : List (List (Written order h addressSize))}
    (complete : ∀ code ∈ sequences, Complete false (Written.instructionsOf code)) :
    Complete false (Written.instructionsOf sequences.flatten) := by
  induction sequences with
  | nil => rfl
  | cons first rest ih =>
    obtain ⟨complete, others⟩ := List.forall_mem_cons.1 complete
    rw [List.flatten_cons, Written.instructionsOf_append]
    exact complete.append (ih others)

/-- What ends a sequence that has begun is complete by itself. -/
theorem of_inside (complete : Complete true instructions) : Complete inside instructions := by
  cases instructions with
  | nil => cases complete
  | cons i rest => exact complete

end Complete

/-! ## Programs of complete sequences -/

namespace Instruction

open Written

/-- The instructions of complete sequences are all read, and the reading ends behind them. -/
theorem collectFrom_of_rest (same : s.order = order) {code : List (Written order h addressSize)}
    (there : start ≤ s.bytes.size) (rest : s.bytes.rest start = bytesOf code)
    (complete : Complete inside (instructionsOf code)) :
    collectFrom s h addressSize inside start = (instructionsOf code, .ok ()) := by
  induction code generalizing start inside with
  | nil =>
    have last : s.bytes.size ≤ start := Bytes.rest_eq_nil_iff.1 rest
    have outside : inside = false := complete
    exact collectFrom_done (by simp [last, outside])
  | cons w code ih =>
    have holds := Bytes.holds_of_rest there rest
    rw [collectFrom_ok (w.reads same start holds), ih holds.le_size (Bytes.rest_add rest) complete]
    rfl

/-- A reading that comes to the end has come by complete sequences. -/
theorem exists_code_of_collectFrom {inside : Bool} {start : Nat} {instructions : List Instruction}
    (there : start ≤ s.bytes.size)
    (all : collectFrom s h addressSize inside start = (instructions, .ok ())) :
    ∃ code : List (Written s.order h addressSize), instructionsOf code = instructions ∧
      s.bytes.rest start = bytesOf code ∧ Complete inside instructions := by
  by_cases done : !inside && s.bytes.size ≤ start
  · rw [collectFrom_done done] at all
    cases all
    have done : inside = false ∧ s.bytes.size ≤ start := by simpa using done
    exact ⟨[], rfl, Bytes.rest_eq_nil_iff.2 done.2, done.1⟩
  match run : (read s h addressSize).run start with
  | .error e =>
    rw [collectFrom_error done run] at all
    cases all
  | .ok (i, next) =>
    have progress := read_progresses s h addressSize start i next run
    obtain ⟨there', encoded⟩ := finds_read s h addressSize start i next there run
    rw [collectFrom_ok run] at all
    obtain ⟨rfl, ended⟩ := Prod.mk.inj all
    obtain ⟨code, same, rest, complete⟩ :=
      exists_code_of_collectFrom there' (Prod.ext rfl ended)
    refine ⟨⟨i, _, encoded⟩ :: code, congrArg (i :: ·) same, ?_, complete⟩
    rw [bytesOf_cons, ← rest]
    exact (Bytes.between_append_rest (Read.le_of_run run) there').symm
termination_by s.bytes.size - start

/-- The programs that are run to their end are those of complete sequences. -/
theorem collectFrom_eq_ok_iff (there : start ≤ s.bytes.size) :
    collectFrom s h addressSize inside start = (instructions, .ok ()) ↔
      ∃ code : List (Written s.order h addressSize), instructionsOf code = instructions ∧
        s.bytes.rest start = bytesOf code ∧ Complete inside instructions := by
  constructor
  · exact exists_code_of_collectFrom there
  · rintro ⟨code, rfl, rest, complete⟩
    exact collectFrom_of_rest rfl there rest complete

end Instruction

/-! ## Rows -/

namespace Row

/-- Behind complete sequences the registers are as in the beginning. -/
theorem registers_foldl_step {m : Machine}
    (begun : inside = false → m.registers = Row.start ∧ m.marks = .start h)
    (complete : Complete inside instructions) :
    (instructions.foldl (Machine.step h base) m).registers = Row.start ∧
      (instructions.foldl (Machine.step h base) m).marks = .start h := by
  induction instructions generalizing inside m with
  | nil => exact begun complete
  | cons i rest ih =>
    refine ih (fun outside => ?_) complete
    have last : i = .endSequence := by simpa using outside
    subst last
    exact ⟨rfl, rfl⟩

theorem ofInstructions_append (complete : Complete false instructions)
    (more : List Instruction) :
    ofInstructions h base (instructions ++ more) =
      ofInstructions h base instructions ++ ofInstructions h base more := by
  let m := instructions.foldl (Machine.step h base) (.start h)
  have again : m.registers = Row.start ∧ m.marks = .start h :=
    registers_foldl_step (fun _ => ⟨rfl, rfl⟩) complete
  rw [ofInstructions, List.foldl_append, foldl_step h base _ _ _ more, again.1, again.2,
    List.reverse_append]
  rfl

/-- Complete sequences have their rows independently of one another. -/
theorem ofInstructions_flatten {sequences : List (List (Written order h addressSize))}
    (complete : ∀ code ∈ sequences, Complete false (Written.instructionsOf code)) :
    ofInstructions h base (Written.instructionsOf sequences.flatten) =
      sequences.flatMap fun code => ofInstructions h base (Written.instructionsOf code) := by
  induction sequences with
  | nil => rfl
  | cons first rest ih =>
    obtain ⟨complete, others⟩ := List.forall_mem_cons.1 complete
    rw [List.flatten_cons, Written.instructionsOf_append, ofInstructions_append complete,
      ih others, List.flatMap_cons]

end Row

/-! ## Rows in another order -/

/-- What is done to the table for a row. -/
def attaching? (sources : Array SourceId) (row : Row) : Option Symbol.Table.Operation :=
  (sourceOf? sources row.file).map fun source => .addLine source row.line row.address

theorem onlyLines_attaching (sources : Array SourceId) (rows : List Row) :
    Symbol.Table.OnlyLines (rows.filterMap (attaching? sources)) := by
  intro op mem
  obtain ⟨row, -, attaching⟩ := List.mem_filterMap.1 mem
  obtain ⟨source, -, rfl⟩ := Option.map_eq_some_iff.1 attaching
  exact ⟨source, row.line, row.address, rfl⟩

theorem foldl_attach (sources : Array SourceId) (rows : List Row) (r : Nat × Symbol.Table) :
    (rows.foldl (attach sources) r).2 = r.2.after (rows.filterMap (attaching? sources)) := by
  induction rows generalizing r with
  | nil => rfl
  | cons row rest ih =>
    rw [List.foldl_cons, ih]
    cases found : sourceOf? sources row.file with
    | none =>
      have nothing : attaching? sources row = none := by rw [attaching?, found]; rfl
      rw [attach_of_none found, List.filterMap_cons_none nothing]
    | some source =>
      have line : attaching? sources row = some (.addLine source row.line row.address) := by
        rw [attaching?, found]
        rfl
      rw [attach_of_source found, List.filterMap_cons_some line]
      rfl

/-- As many lines are attached, and every function has the same. -/
theorem apply_perm {rows rows' : List Row} (perm : rows.Perm rows') (directories : Array String)
    (files : List File) (t : Symbol.Table) :
    (apply directories files rows' t).1 = (apply directories files rows t).1 ∧
      ∀ id, ((apply directories files rows' t).2.linesOf id).Perm
        ((apply directories files rows t).2.linesOf id) := by
  let named := internFiles directories files t
  have only (rows : List Row) := onlyLines_attaching named.1 rows
  have table (rows : List Row) : (apply directories files rows t).2 =
      named.2.after (rows.filterMap (attaching? named.1)) :=
    foldl_attach named.1 rows (0, named.2)
  have lines (id : SymbolId) : ((apply directories files rows' t).2.linesOf id).Perm
      ((apply directories files rows t).2.linesOf id) := by
    rw [table, table]
    exact (only rows).perm_linesOf (perm.filterMap _) named.2 id
  have size : (apply directories files rows' t).2.size =
      (apply directories files rows t).2.size := by
    rw [table, table, (only rows).size_after, (only rows').size_after]
  -- Both have been counted by the facts that are there in the end.
  have count := Symbol.Table.factCount_congr size fun id => (lines id).length_eq
  rw [factCount_apply, factCount_apply] at count
  exact ⟨Nat.add_left_cancel count, lines⟩

/-! ## Runs -/

open Written

variable {front length length' middle back : List UInt8} {included : List String}
  {files : List File} {offset stop : Nat}

theorem run_of_complete {n : Nat} {code : List (Written order h addressSize)}
    (prologue : (readPrologue s).run offset = .ok (({ h with stop := n }, included, files), stop))
    (same : s.order = order)
    (there : h.program ≤ (Header.section { h with stop := n } s).bytes.size)
    (rest : (Header.section { h with stop := n } s).bytes.rest h.program = bytesOf code)
    (complete : Complete false (instructionsOf code)) (compDir : Option String) (base : UInt64)
    (t : Symbol.Table) :
    run s offset compDir addressSize base t =
      let applied := apply (directoriesOf compDir included) files
        (Row.ofInstructions h base (instructionsOf code)) t
      (.ok applied.1, applied.2) := by
  have all : Instruction.collect (Header.section { h with stop := n } s) { h with stop := n }
      addressSize h.program = (instructionsOf code, .ok ()) := by
    rw [Instruction.collect_eq, Instruction.collectFrom_stop]
    exact Instruction.collectFrom_of_rest (s := Header.section { h with stop := n } s) same there
      rest complete
  rw [run_of_prologue prologue]
  dsimp only
  rw [all]
  rfl

/-- Both programs run to their end, and what they come to is told by their instructions.  The tables
may stand behind the program or in it as long as they are the same with the other one. -/
theorem Exchanged.run_eq {code code' : List (Written s.order h addressSize)}
    (exchanged : Exchanged s s' front length length' middle (bytesOf code) (bytesOf code') back)
    (prologue : (readPrologue s).run front.length = .ok ((h, included, files), stop))
    (begins : h.program = front.length + 4 + middle.length)
    (ends : h.stop = h.program + (bytesOf code).length)
    (tables : stop ≤ h.program ∨ ∃ stop', (readPrologue s').run front.length =
      .ok (({ h with stop := h.program + (bytesOf code').length }, included, files), stop'))
    (complete : Complete false (instructionsOf code))
    (complete' : Complete false (instructionsOf code')) (compDir : Option String) (base : UInt64)
    (t : Symbol.Table) :
    let applied := fun code => apply (directoriesOf compDir included) files
      (Row.ofInstructions h base (instructionsOf code)) t
    run s front.length compDir addressSize base t = (.ok (applied code).1, (applied code).2) ∧
      run s' front.length compDir addressSize base t =
        (.ok (applied code').1, (applied code').2) := by
  intro applied
  have prologue' : ∃ stop', (readPrologue s').run front.length =
      .ok (({ h with stop := h.program + (bytesOf code').length }, included, files), stop') := by
    rcases tables with behind | same
    · exact ⟨stop, exchanged.readPrologue_eq prologue behind begins ends⟩
    · exact same
  obtain ⟨stop', prologue'⟩ := prologue'
  let h' : Header := { h with stop := h.program + (bytesOf code').length }
  constructor
  · exact run_of_complete (n := h.stop) prologue rfl (exchanged.le_size begins ends)
      (exchanged.rest begins ends) complete compDir base t
  · exact run_of_complete prologue' exchanged.order (exchanged.symm.le_size (h := h') begins rfl)
      (exchanged.symm.rest (h := h') begins rfl) complete' compDir base t

section Reordered

variable {sequences sequences' : List (List (Written s.order h addressSize))}
  (perm : sequences.Perm sequences')
  (complete : ∀ code ∈ sequences, Complete false (instructionsOf code))
  (exchanged : Exchanged s s' front length length middle (bytesOf sequences.flatten)
    (bytesOf sequences'.flatten) back)
  (prologue : (readPrologue s).run front.length = .ok ((h, included, files), stop))
  (begins : h.program = front.length + 4 + middle.length)
  (ends : h.stop = h.program + (bytesOf sequences.flatten).length)
  (tables : stop ≤ h.program ∨ ∃ stop', (readPrologue s').run front.length =
    .ok ((h, included, files), stop'))
  (compDir : Option String) (base : UInt64) (t : Symbol.Table)

include perm complete exchanged prologue begins ends tables

/-- The same sequences in another order run to their end too, and come to the same rows in another
order. -/
theorem exists_rows_of_perm :
    let applied := fun rows => apply (directoriesOf compDir included) files rows t
    ∃ rows rows', rows.Perm rows' ∧
      run s front.length compDir addressSize base t = (.ok (applied rows).1, (applied rows).2) ∧
      run s' front.length compDir addressSize base t =
        (.ok (applied rows').1, (applied rows').2) := by
  have complete' : ∀ code ∈ sequences', Complete false (instructionsOf code) :=
    fun code mem => complete code (perm.mem_iff.2 mem)
  have length : (bytesOf sequences'.flatten).length = (bytesOf sequences.flatten).length :=
    (perm.flatten.flatMap_right bytes).length_eq.symm
  have rows : (Row.ofInstructions h base (instructionsOf sequences.flatten)).Perm
      (Row.ofInstructions h base (instructionsOf sequences'.flatten)) := by
    rw [Row.ofInstructions_flatten complete, Row.ofInstructions_flatten complete']
    exact perm.flatMap_right _
  -- The program ends where it did, so that the other section has the very same header.
  rw [← show { h with stop := h.program + (bytesOf sequences'.flatten).length } = h by
    rw [length, ← ends]] at tables
  obtain ⟨run, run'⟩ := exchanged.run_eq prologue begins ends tables (.flatten complete)
    (.flatten complete') compDir base t
  exact ⟨_, _, rows, run, run'⟩

/-- Where the lines are in order, it makes no difference either that the program looks for the place
of a line by halving. -/
theorem checkedRun_of_perm (small : Checked.Addressable s) (small' : Checked.Addressable s')
    (sound : t.WellFormed) :
    ∃ n u u', Checked.Line.run s front.length compDir addressSize base t = .ok (.ok n, u) ∧
      Checked.Line.run s' front.length compDir addressSize base t = .ok (.ok n, u') ∧
      ∀ id, (u'.linesOf id).Perm (u.linesOf id) := by
  obtain ⟨rows, rows', perm, run, run'⟩ := exists_rows_of_perm perm complete exchanged prologue
    begins ends tables compDir base t
  obtain ⟨count, lines⟩ := apply_perm perm (directoriesOf compDir included) files t
  rw [Checked.Line.run_eq small _ _ _ _ sound, Checked.Line.run_eq small' _ _ _ _ sound, run, run',
    count]
  exact ⟨_, _, _, rfl, rfl, lines⟩

end Reordered

/-- Sequences are independent.  The same sequences in another order run to their end too, attach as
many lines, and leave every function with the same lines. -/
theorem run_of_perm {sequences sequences' : List (List (Written s.order h addressSize))}
    (perm : sequences.Perm sequences')
    (complete : ∀ code ∈ sequences, Complete false (instructionsOf code))
    (exchanged : Exchanged s s' front length length middle (bytesOf sequences.flatten)
      (bytesOf sequences'.flatten) back)
    (prologue : (readPrologue s).run front.length = .ok ((h, included, files), stop))
    (begins : h.program = front.length + 4 + middle.length)
    (ends : h.stop = h.program + (bytesOf sequences.flatten).length)
    (tables : stop ≤ h.program ∨ ∃ stop', (readPrologue s').run front.length =
      .ok ((h, included, files), stop'))
    (compDir : Option String) (base : UInt64) (t : Symbol.Table) :
    ∃ n, (run s front.length compDir addressSize base t).1 = .ok n ∧
      (run s' front.length compDir addressSize base t).1 = .ok n ∧
      ∀ id, ((run s' front.length compDir addressSize base t).2.linesOf id).Perm
        ((run s front.length compDir addressSize base t).2.linesOf id) := by
  obtain ⟨rows, rows', perm, run, run'⟩ := exists_rows_of_perm perm complete exchanged prologue
    begins ends tables compDir base t
  obtain ⟨count, lines⟩ := apply_perm perm (directoriesOf compDir included) files t
  rw [run, run']
  exact ⟨_, rfl, congrArg Except.ok count, lines⟩

namespace Swapped

open Instruction (Encodes)

/-- The header of `Compressed` before a program of twice the length. -/
def header : Header :=
  { Compressed.header with stop := 58 }

theorem encodes_setAddress {n : UInt64} {bytes : List UInt8} (width : bytes.length = 4)
    (spelled : ByteOrder.little.value bytes = n.toNat) :
    Encodes .little header 4 (.setAddress n) (0 :: 5 :: 2 :: bytes) := by
  have five : Leb128.Saturates [5] 5 := ⟨.single (by decide), by decide⟩
  exact .extended five (by decide) (.setAddress (by decide) width spelled)

theorem encodes_endSequence : Encodes .little header 4 .endSequence [0, 1, 1] := by
  have one : Leb128.Saturates [1] 1 := ⟨.single (by decide), by decide⟩
  exact .extended one (by decide) .endSequence

theorem encodes_address : Encodes .little header 4 (.setAddress 16) [0, 5, 2, 16, 0, 0, 0] :=
  encodes_setAddress rfl (by decide)

theorem encodes_address' : Encodes .little header 4 (.setAddress 17) [0, 5, 2, 17, 0, 0, 0] :=
  encodes_setAddress rfl (by decide)

theorem encodes_special : Encodes .little header 4 (.special 32) [32] :=
  .special (by decide)

theorem encodes_constAddPc : Encodes .little header 4 .constAddPc [8] :=
  .constAddPc (by decide)

theorem encodes_advanceLine : Encodes .little header 4 (.advanceLine 3) [3, 3] :=
  .advanceLine (by decide) ⟨.single (by decide), by decide⟩

theorem encodes_copy : Encodes .little header 4 .copy [1] :=
  .copy (by decide)

/-- Its rows are at 17 and at 34. -/
def first : List (Written .little header 4) :=
  [⟨_, _, encodes_address⟩, ⟨_, _, encodes_special⟩, ⟨_, _, encodes_constAddPc⟩,
    ⟨_, _, encodes_endSequence⟩]

/-- It tells the row at 17 twice more. -/
def second : List (Written .little header 4) :=
  [⟨_, _, encodes_address'⟩, ⟨_, _, encodes_advanceLine⟩, ⟨_, _, encodes_copy⟩,
    ⟨_, _, encodes_endSequence⟩]

/-- The sequences behind the prologue of `Compressed`. -/
def sectionOf (sequences : List (List (Written .little header 4))) : Section :=
  ⟨.lines, .little, ([54, 0, 0, 0] ++ Compressed.bytes.between 4 33 ++
    bytesOf sequences.flatten).toArray⟩

theorem exchanged :
    Exchanged (sectionOf [first, second]) (sectionOf [second, first]) [] [54, 0, 0, 0]
      [54, 0, 0, 0] (Compressed.bytes.between 4 33) (bytesOf [first, second].flatten)
      (bytesOf [second, first].flatten) [] :=
  ⟨by simp [sectionOf], by simp [sectionOf], rfl, rfl, rfl, by decide⟩

theorem prologue_eq : (readPrologue (sectionOf [first, second])).run 0 =
    .ok ((header, [], [⟨"a.c", 0⟩]), 33) := by
  have exchanged : Exchanged ⟨.lines, .little, Compressed.bytes⟩ (sectionOf [first, second]) []
      [41, 0, 0, 0] [54, 0, 0, 0] (Compressed.bytes.between 4 33) (Compressed.bytes.between 33 45)
      (bytesOf [first, second].flatten) [] :=
    ⟨by decide, by simp [sectionOf], rfl, rfl, rfl, by decide⟩
  exact exchanged.readPrologue_eq Compressed.prologue (by decide) rfl (by decide)

end Swapped

open Swapped in
/-- Two sequences with a row in common. -/
theorem run_swapped :
    let s := sectionOf [first, second]
    let s' := sectionOf [second, first]
    [first, second].Perm [second, first] ∧
      (∀ code ∈ [first, second], Complete false (instructionsOf code)) ∧
      Exchanged s s' [] [54, 0, 0, 0] [54, 0, 0, 0] (Compressed.bytes.between 4 33)
        (bytesOf [first, second].flatten) (bytesOf [second, first].flatten) [] ∧
      (readPrologue s).run 0 = .ok ((header, [], [⟨"a.c", 0⟩]), 33) ∧
      ∃ n, (run s 0 none 4 0 (Compressed.table {})).1 = .ok n ∧
        (run s' 0 none 4 0 (Compressed.table {})).1 = .ok n ∧
        ∀ id, ((run s' 0 none 4 0 (Compressed.table {})).2.linesOf id).Perm
          ((run s 0 none 4 0 (Compressed.table {})).2.linesOf id) := by
  intro s s'
  have perm : [first, second].Perm [second, first] := .swap second first []
  have complete : ∀ code ∈ [first, second], Complete false (instructionsOf code) := by
    simp [first, second, Complete]
  exact ⟨perm, complete, exchanged, prologue_eq, run_of_perm perm complete exchanged prologue_eq rfl
    rfl (.inl (by decide)) none 0 (Compressed.table {})⟩

end Line
end Dwarf2
