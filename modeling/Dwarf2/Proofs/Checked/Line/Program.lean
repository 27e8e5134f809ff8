/-
Running line number programs with steps that may panic.

Rows are attached one by one, and each needs what the ones before it have left: the lines of
every function in order, and no more lines attached than there have been rows.
-/
import Dwarf2.Proofs.Checked.Line.Instruction
import Dwarf2.Proofs.Checked.Symbol
import Dwarf2.Proofs.Line.Instruction
import Dwarf2.Proofs.Line.Program

namespace Dwarf2
namespace Checked
namespace Line

open Dwarf2.Line (File Header Instruction Row)
open Reader (Follows)

/-- Reads on until the data ends behind a complete sequence. -/
def collectOnto (s : Section) (h : Header) (addressSize : UInt8) :
    (rounds : Nat) → List Instruction → (inside : Bool) → (start : Nat) →
      Checked (List Instruction × Except Error Unit)
  | 0, _, _, _ => .error .endless
  | rounds + 1, instructions, inside, start => do
    if !inside && s.bytes.size ≤ start then
      return (instructions, .ok ())
    match ← readInstruction s h addressSize start with
    | .error e => return (instructions, .error e)
    | .ok (i, next) =>
      collectOnto s h addressSize rounds (i :: instructions) (i ≠ .endSequence) next

def collect (s : Section) (h : Header) (addressSize : UInt8) (start : Nat) :
    Checked (List Instruction × Except Error Unit) := do
  let r ← collectOnto s h addressSize (s.bytes.size + 1) [] false start
  return (r.1.reverse, r.2)

def step (h : Header) (base : UInt64) (r : Row) : Instruction → Checked Row
  | .special opcode => do
    return (r.advance (← addressAdvance h opcode)).advanceLine (← lineAdvance h opcode)
  | .constAddPc => do return r.advance (← addressAdvance h 255)
  | i => return r.step h base i

def Machine.step (h : Header) (base : UInt64) (m : Row.Machine) (i : Instruction) :
    Checked Row.Machine := do
  let r ← Line.step h base m.registers i
  return {
    rows := if i.emits then r :: m.rows else m.rows
    registers := if i = .endSequence then Row.start else r
    marks := if i = .endSequence then .start h else m.marks.step i }

def ofInstructions (h : Header) (base : UInt64) (instructions : List Instruction) :
    Checked (List Row) := do
  let m ← instructions.foldlM (Machine.step h base) (.start h)
  return m.rows.reverse

def readDirectories (s : Section) : Reader (List String) :=
  .many ((fun bytes => if bytes.isEmpty then none else some (Text.ofUtf8 bytes)) <$>
    Section.string s) (s.bytes.size + 1)

def readFile? (s : Section) : Reader (Option File) := do
  let bytes ← Section.string s
  if bytes.isEmpty then
    return none
  let directory ← Section.unsigned s
  readOperands s 2
  return some ⟨Text.ofUtf8 bytes, directory⟩

def collectFiles (s : Section) (start : Nat) : Checked (List File × Except Error Unit) := do
  let r ← Reader.collect (readFile? s) (s.bytes.size + 1) start
  return (r.1, r.2.map fun _ => ())

def attach (sources : Array SourceId) (attached : Nat × Symbol.Table) (row : Row) :
    Checked (Nat × Symbol.Table) :=
  match Line.sourceOf? sources row.file with
  | none => return attached
  | some source => do
    match ← Symbol.addLine attached.2 source row.line row.address with
    | (true, t) => return (← addSize attached.1 1, t)
    | (false, t) => return (attached.1, t)

def run (s : Section) (offset : Nat) (compDir : Option String) (addressSize : UInt8)
    (base : UInt64) (t : Symbol.Table) : Checked (Except Error Nat × Symbol.Table) := do
  if s.bytes.size ≤ offset then
    return (.error (.malformed s.kind (.programOffset offset)), t)
  let tables : Reader (Header × List String) := do
    let h ← readHeader s
    return (h, ← readDirectories s)
  match ← tables offset with
  | .error e => return (.error e, t)
  | .ok ((h, included), next) =>
    let (files, ending) ← collectFiles s next
    let (sources, t) := Line.internFiles (Line.directoriesOf compDir included) files t
    match ending with
    | .error e => return (.error e, t)
    | .ok () =>
      let program : Section := { s with bytes := ← slice s.bytes 0 h.stop }
      let (instructions, ending) ← collect program h addressSize h.program
      let rows ← ofInstructions h base instructions
      let (attached, t) ← rows.foldlM (attach sources) (0, t)
      return (ending.map fun () => attached, t)

variable {s : Section} {t : Symbol.Table}

/-! ## Instructions -/

theorem collectOnto_eq (h : Addressable s) (header : Header) (addressSize : UInt8) {rounds : Nat}
    (instructions : List Instruction) (inside : Bool) {start : Nat}
    (enough : s.bytes.size - start < rounds) :
    collectOnto s header addressSize rounds instructions inside start =
      .ok (Instruction.collectOnto s header addressSize instructions inside start) := by
  induction rounds generalizing instructions inside start with
  | zero => omega
  | succ rounds ih =>
    have first := follows_readInstruction h header addressSize start
    rw [collectOnto]
    split
    · rename_i done
      rw [Instruction.collectOnto_done done]
      rfl
    · rename_i more
      rw [first.run_eq, ok_bind]
      match run : (Instruction.read s header addressSize).run start with
      | .error e =>
        rw [Instruction.collectOnto_error more run]
        rfl
      | .ok (i, next) =>
        have := Instruction.read_progresses s header addressSize start i next run
        rw [Instruction.collectOnto_ok more run]
        exact ih _ _ (by omega)

theorem collect_eq (h : Addressable s) (header : Header) (addressSize : UInt8) (start : Nat) :
    collect s header addressSize start = .ok (Instruction.collect s header addressSize start) := by
  rw [collect, collectOnto_eq h header addressSize [] false (by omega)]
  rfl

/-- Every instruction has a byte of its own. -/
theorem length_collectOnto_le (s : Section) (header : Header) (addressSize : UInt8)
    (instructions : List Instruction) (inside : Bool) (start : Nat) :
    (Instruction.collectOnto s header addressSize instructions inside start).1.length ≤
      instructions.length + (s.bytes.size - start) := by
  fun_induction Instruction.collectOnto s header addressSize instructions inside start with
  | case1 => exact Nat.le_add_right ..
  | case2 => exact Nat.le_add_right ..
  | case3 instructions inside start _ i next _ progress ih =>
    rw [List.length_cons] at ih
    omega

theorem length_collect_le (s : Section) (header : Header) (addressSize : UInt8) (start : Nat) :
    (Instruction.collect s header addressSize start).1.length ≤ s.bytes.size := by
  have := length_collectOnto_le s header addressSize [] false start
  rw [Instruction.collect, List.length_reverse]
  rw [List.length_nil] at this
  omega

/-! ## Rows -/

theorem step_eq (h : Header) (base : UInt64) (r : Row) (i : Instruction) :
    step h base r i = .ok (r.step h base i) := by
  cases i
  case special opcode =>
    change (do
      return (r.advance (← addressAdvance h opcode)).advanceLine (← lineAdvance h opcode)) = _
    rw [addressAdvance_eq, ok_bind, lineAdvance_eq, ok_bind]
    rfl
  case constAddPc =>
    change (do return r.advance (← addressAdvance h 255)) = _
    rw [addressAdvance_eq, ok_bind]
    rfl
  all_goals rfl

theorem ofInstructions_eq (h : Header) (base : UInt64) (instructions : List Instruction) :
    ofInstructions h base instructions = .ok (Row.ofInstructions h base instructions) := by
  have taken (m : Row.Machine) (i : Instruction) :
      Machine.step h base m i = .ok (m.step h base i) := by
    rw [Machine.step, step_eq]
    rfl
  rw [ofInstructions, foldlM_eq (fun _ _ => True) (fun i _ m _ => ⟨taken m i, trivial⟩) trivial]
  rfl

/-- An instruction emits one row at most. -/
theorem length_ofInstructions_le (h : Header) (base : UInt64) (instructions : List Instruction) :
    (Row.ofInstructions h base instructions).length ≤ instructions.length := by
  have folded (m : Row.Machine) : (instructions.foldl (Row.Machine.step h base) m).rows.length ≤
      m.rows.length + instructions.length := by
    induction instructions generalizing m with
    | nil => exact Nat.le_refl _
    | cons i rest ih =>
      have one : (m.step h base i).rows.length ≤ m.rows.length + 1 := by
        unfold Row.Machine.step
        dsimp only
        split
        · exact Nat.le_refl _
        · exact Nat.le_succ _
      have := ih (m.step h base i)
      rw [List.foldl_cons, List.length_cons]
      omega
  have := folded (.start h)
  rw [Row.ofInstructions, List.length_reverse]
  simpa [Row.Machine.start] using this

/-! ## Files -/

theorem follows_readDirectories (h : Addressable s) (start : Nat) :
    Follows (readDirectories s) (Dwarf2.Line.readDirectories s) start :=
  .many _ (by omega) fun position _ => .map _ (Section.follows_string h position)

theorem follows_readFile? (h : Addressable s) (start : Nat) :
    Follows (readFile? s) (Dwarf2.Line.readFile? s) start := by
  refine .bind (Section.follows_string h start) fun bytes _ _ => ?_
  refine .ite (fun _ => .pure _ _) fun _ => ?_
  refine .bind (Section.follows_unsigned h _) fun directory _ _ => ?_
  exact .bind (follows_readOperands h 2 _) fun _ _ _ => .pure _ _

theorem collectFiles_eq (h : Addressable s) (start : Nat) :
    collectFiles s start = .ok (Dwarf2.Line.collectFiles s start) := by
  rw [collectFiles, Reader.collect_eq (Dwarf2.Line.readFile?_progresses s).items
    (follows_readFile? h) (by omega)]
  rfl

/-! ## Programs -/

/-- The lines of every function are in order, which is all that is asked of a table. -/
theorem attach_eq (h : t.WellFormed) (sources : Array SourceId) {n : Nat} (room : n + 1 < 2 ^ 64)
    (row : Row) : attach sources (n, t) row = .ok (Dwarf2.Line.attach sources (n, t) row) := by
  have ordered : ∀ id f, t.get? id = some (.function f) →
      f.lines.Pairwise fun a b => a.offset ≤ b.offset := fun id f there =>
    ((h.symbols id _ there).1.function f rfl).lines
  unfold attach Dwarf2.Line.attach
  cases Dwarf2.Line.sourceOf? sources row.file with
  | none => rfl
  | some source =>
    dsimp only
    rw [Symbol.addLine_eq ordered, ok_bind]
    generalize t.addLine source row.line row.address = r
    obtain ⟨added, t'⟩ := r
    cases added with
    | true =>
      dsimp only
      rw [addSize, guarded_of room]
      rfl
    | false => rfl

theorem attach_fst_le (sources : Array SourceId) (n : Nat) (t : Symbol.Table) (row : Row) :
    (Dwarf2.Line.attach sources (n, t) row).1 ≤ n + 1 := by
  unfold Dwarf2.Line.attach
  split
  · exact Nat.le_succ n
  · split
    · exact Nat.le_refl _
    · exact Nat.le_succ n

theorem foldlM_attach_eq {sources : Array SourceId} {n : Nat} (h : t.WellFormed)
    (named : Dwarf2.Line.Named sources t) (rows : List Row) (room : n + rows.length < 2 ^ 64) :
    rows.foldlM (attach sources) (n, t) =
      .ok (rows.foldl (Dwarf2.Line.attach sources) (n, t)) := by
  refine foldlM_eq (fun rest r => r.2.WellFormed ∧ Dwarf2.Line.Named sources r.2 ∧
    r.1 + rest.length < 2 ^ 64) ?_ ⟨h, named, room⟩
  rintro row rest ⟨n, t⟩ ⟨h, named, room⟩
  dsimp only at h named room
  rw [List.length_cons] at room
  obtain ⟨h', named'⟩ := Dwarf2.Line.wellFormed_attach (n := n) h named row
  have one := attach_fst_le sources n t row
  exact ⟨attach_eq h sources (by omega) row, h', named', by omega⟩

/-- The program ends inside the section. -/
theorem stop_le_of_read {start stop : Nat} {h : Header}
    (read : (Header.read s).run start = .ok (h, stop)) : h.stop ≤ s.bytes.size := by
  -- The fields up to the opcode base do not matter.
  iterate 10 obtain ⟨_, _, -, read⟩ := Read.run_bind_eq_ok.1 read
  split at read
  · split at read
    · obtain ⟨counts, behind, -, read⟩ := Read.run_bind_eq_ok.1 read
      cases read
      exact Nat.min_le_right ..
    · cases read
  · cases read

theorem run_eq (h : Addressable s) (offset : Nat) (compDir : Option String) (addressSize : UInt8)
    (base : UInt64) (sound : t.WellFormed) :
    run s offset compDir addressSize base t =
      .ok (Dwarf2.Line.run s offset compDir addressSize base t) := by
  unfold run Dwarf2.Line.run
  split
  · rfl
  let tables : Read (Header × List String) := do
    let h ← Header.read s
    return (h, ← Dwarf2.Line.readDirectories s)
  have read : Follows
      (do
        let h ← readHeader s
        return (h, ← readDirectories s)) tables offset :=
    .bind (follows_readHeader h offset) fun _ _ _ =>
      .bind (follows_readDirectories h _) fun _ _ _ => .pure _ _
  dsimp only
  rw [read.run_eq]
  match run : tables.run offset with
  | .error e => rfl
  | .ok ((header, included), next) =>
    have inside : header.stop ≤ s.bytes.size := by
      obtain ⟨_, _, first, rest⟩ := Read.run_bind_eq_ok.1 run
      obtain ⟨_, _, -, rest⟩ := Read.run_bind_eq_ok.1 rest
      cases rest
      exact stop_le_of_read first
    obtain ⟨sliced, size⟩ := Section.slice_of_le (Nat.zero_le header.stop) inside
    let program : Section := { s with bytes := s.bytes.extract 0 header.stop }
    have small : Addressable program := Nat.lt_of_le_of_lt (size ▸ inside) h
    rw [ok_bind]
    dsimp only
    rw [collectFiles_eq h, ok_bind]
    generalize Dwarf2.Line.collectFiles s next = r
    obtain ⟨files, e | ⟨⟩⟩ := r
    · rfl
    obtain ⟨sound', named⟩ :=
      Dwarf2.Line.wellFormed_internFiles (Line.directoriesOf compDir included) files sound
    generalize Line.internFiles (Line.directoriesOf compDir included) files t = r at sound' named ⊢
    obtain ⟨sources, t'⟩ := r
    have rows := length_ofInstructions_le header base
      (Instruction.collect program header addressSize header.program).1
    have instructions := length_collect_le program header addressSize header.program
    have attached := foldlM_attach_eq (n := 0) sound' named
      (Row.ofInstructions header base
        (Instruction.collect program header addressSize header.program).1)
      (by unfold Addressable at small; omega)
    dsimp only
    rw [sliced, ok_bind, collect_eq small, ok_bind, ofInstructions_eq, ok_bind, attached]
    rfl

end Line
end Checked
end Dwarf2
