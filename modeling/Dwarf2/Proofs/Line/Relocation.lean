/-
Line number programs of a module that lies elsewhere.

Within a sequence, addresses count from the one that it sets, and that one from the base.  So
the rows move with the module if every sequence sets its address before its first row: they are
then attached to the same functions, at the same offsets.
-/
import Dwarf2.Proofs.Line.Prologue
import Dwarf2.Proofs.Symbol.Relocation

namespace Dwarf2
namespace Line

open Dwarf2.Symbol.Table (Relocated Operation)

variable {d base : UInt64} {h : Header}

/-! ## Rows -/

def Row.relocate (d : UInt64) (r : Row) : Row :=
  { r with address := r.address + d }

/-- Whether the sequence that goes on behind the instruction has set its address. -/
def Instruction.anchors (set : Bool) : Instruction → Bool
  | setAddress _ => true
  | endSequence => false
  | _ => set

/-- No sequence has a row before it sets its address.  The first of them has set it already if
`set`. -/
def Anchored : (set : Bool) → List Instruction → Prop
  | _, [] => True
  | set, i :: rest => (i.emits → set) ∧ Anchored (i.anchors set) rest

instance Anchored.decidable : (set : Bool) → (l : List Instruction) → Decidable (Anchored set l)
  | _, [] => .isTrue trivial
  | set, i :: rest =>
    have := decidable (i.anchors set) rest
    inferInstanceAs (Decidable ((i.emits → set) ∧ Anchored (i.anchors set) rest))

namespace Row

theorem advance_relocate (r : Row) (n : UInt64) :
    (r.relocate d).advance n = (r.advance n).relocate d :=
  congrArg (Row.mk · r.file r.line) (add_add_comm r.address d n)

theorem step_relocate (h : Header) (base : UInt64) (r : Row) (i : Instruction) :
    (r.relocate d).step h (base + d) i = (r.step h base i).relocate d := by
  cases i with
  | special opcode =>
    exact congrArg (Row.advanceLine · (h.lineAdvance opcode)) (advance_relocate r _)
  | advancePc | constAddPc | fixedAdvancePc => exact advance_relocate r _
  | setAddress address =>
    exact congrArg (Row.mk · r.file r.line) (add_add_comm base d address)
  | _ => rfl

/-- The rows are the same but for the addresses, and so are the registers if `set`. -/
structure Machine.Moved (d : UInt64) (set : Bool) (m m' : Machine) : Prop where
  rows : m'.rows = m.rows.map (relocate d)
  registers : m'.registers = if set then m.registers.relocate d else m.registers

theorem Machine.Moved.step {set : Bool} {m m' : Machine} (moved : Moved d set m m')
    {i : Instruction} (anchored : i.emits → set) :
    Moved d (i.anchors set) (m.step h base i) (m'.step h (base + d) i) := by
  obtain ⟨rows, registers, marks⟩ := m'
  obtain ⟨rfl, rfl⟩ := moved
  cases set with
  | true =>
    refine ⟨?_, ?_⟩ <;> simp only [Machine.step, if_true, step_relocate]
    · split <;> rfl
    · cases i <;> rfl
  | false =>
    -- No row may come yet, and only the instruction that sets the address asks for the base.
    have silent : i.emits = false :=
      Bool.eq_false_iff.2 fun emits => Bool.noConfusion (anchored emits)
    refine ⟨?_, ?_⟩ <;> simp only [Machine.step, silent]
    · rfl
    · cases i with
      | setAddress address => exact step_relocate h base m.registers (.setAddress address)
      | endSequence => rfl
      | _ => rfl

theorem Machine.Moved.run {set : Bool} {instructions : List Instruction} {m m' : Machine}
    (moved : Moved d set m m') (anchored : Anchored set instructions) :
    (instructions.foldl (Machine.step h (base + d)) m').rows =
      (instructions.foldl (Machine.step h base) m).rows.map (relocate d) := by
  induction instructions generalizing set m m' with
  | nil => exact moved.rows
  | cons i rest ih => exact ih (moved.step anchored.1) anchored.2

theorem ofInstructions_relocate {instructions : List Instruction}
    (anchored : Anchored false instructions) :
    ofInstructions h (base + d) instructions =
      (ofInstructions h base instructions).map (relocate d) := by
  have start : Machine.Moved d false (.start h) (.start h) := ⟨rfl, rfl⟩
  rw [ofInstructions, start.run anchored, ← List.map_reverse]
  rfl

end Row

/-! ## Programs -/

/-- What is asked of a program for its rows to move along. -/
structure Program.Movable (d base : UInt64) (p : Program) : Prop where
  anchored : Anchored false p.instructions
  room : ∀ row ∈ p.rows base, Room d row.address

/-- The results are the same but for the addresses of the symbols, which have all room to move. -/
structure Moved {α : Type} (d : UInt64) (r r' : α × Symbol.Table) : Prop where
  same : r'.1 = r.1
  symbols : Relocated d r.2 r'.2
  indexed : r.2.Indexed
  room : r.2.HasRoom d

theorem Moved.internFiles {t u : Symbol.Table} (h : Relocated d t u) (indexed : t.Indexed)
    (room : t.HasRoom d) (directories : Array String) (files : List File) :
    Moved d (internFiles directories files t) (internFiles directories files u) := by
  refine List.foldl_rel (r := Moved d) ⟨rfl, h, indexed, room⟩ fun file _ r r' moved => ?_
  obtain ⟨source, symbols⟩ := moved.symbols.intern
    (Path.ofFile directories[file.directory.toNat]? file.name)
  have indexed := moved.indexed.effect
    (Operation.effect r.2 (.internFile directories[file.directory.toNat]? file.name))
  exact ⟨congrArg₂ Array.push moved.same source, symbols, indexed, moved.room.intern _⟩

theorem Moved.attach {r r' : Nat × Symbol.Table} (moved : Moved d r r') (sources : Array SourceId)
    {row : Row} (room : Room d row.address) :
    Moved d (attach sources r row) (attach sources r' (row.relocate d)) := by
  match found : sourceOf? sources row.file with
  | none =>
    have found' : sourceOf? sources (row.relocate d).file = none := found
    unfold Line.attach
    rw [found, found']
    exact moved
  | some source =>
    have found' : sourceOf? sources (row.relocate d).file = some source := found
    obtain ⟨same, symbols⟩ := moved.symbols.addLine moved.indexed moved.room source row.line room
    rw [attach_of_source found, attach_of_source found']
    refine ⟨?_, symbols, moved.indexed.addLine _ _ _, moved.room.addLine _ _ _⟩
    rw [moved.same]
    exact congrArg (fun added : Bool => if added then r.1 + 1 else r.1) same

theorem Moved.apply {t u : Symbol.Table} (h : Relocated d t u) (indexed : t.Indexed)
    (room : t.HasRoom d) (directories : Array String) (files : List File) {rows : List Row}
    (rooms : ∀ row ∈ rows, Room d row.address) :
    Moved d (apply directories files rows t)
      (apply directories files (rows.map (Row.relocate d)) u) := by
  have named := Moved.internFiles h indexed room directories files
  unfold Line.apply
  dsimp only
  rw [named.same, List.foldl_map]
  exact List.foldl_rel (r := Moved d) ⟨rfl, named.symbols, named.indexed, named.room⟩
    fun row mem r r' moved => moved.attach _ (rooms row mem)

theorem rows_relocate {s : Section} {offset : Nat} {addressSize : UInt8}
    (movable : ∀ p, program? s offset addressSize = some p → p.Movable d base) :
    (∀ row ∈ rows s offset addressSize base, Room d row.address) ∧
      rows s offset addressSize (base + d) =
        (rows s offset addressSize base).map (Row.relocate d) := by
  unfold rows
  match there : program? s offset addressSize with
  | none => exact ⟨nofun, rfl⟩
  | some p =>
    obtain ⟨anchored, rooms⟩ := movable p there
    exact ⟨rooms, Row.ofInstructions_relocate anchored⟩

/-- A program gives nothing an address. -/
theorem hasRoom_run {t : Symbol.Table} (room : t.HasRoom d) (s : Section) (offset : Nat)
    (compDir : Option String) (addressSize : UInt8) (base : UInt64) :
    (run s offset compDir addressSize base t).2.HasRoom d := by
  obtain ⟨directories, files, rows, eq⟩ := exists_table s offset compDir addressSize base t
  rw [eq]
  have named : (internFiles directories files t).2.HasRoom d :=
    internFiles_induction (P := fun r => r.2.HasRoom d) directories files room
      fun _ _ _ _ room => room.intern _
  refine List.foldlRecOn (motive := fun r : Nat × Symbol.Table => r.2.HasRoom d) rows _ named ?_
  intro (n, u) room row _
  rcases attach_cases (internFiles directories files t).1 n u row with same | ⟨source, -, added⟩
  · exact same.symm ▸ room
  · exact added.symm ▸ room.addLine source row.line row.address

/-- The same lines are attached, and the run ends alike. -/
theorem Moved.run {t u : Symbol.Table} (h : Relocated d t u) (indexed : t.Indexed)
    (room : t.HasRoom d) {s : Section} {offset : Nat} {addressSize : UInt8}
    (movable : ∀ p, program? s offset addressSize = some p → p.Movable d base)
    (compDir : Option String) :
    Moved d (run s offset compDir addressSize base t)
      (run s offset compDir addressSize (base + d) u) := by
  obtain ⟨directories, files, ending, eq⟩ := exists_apply s offset compDir addressSize
  obtain ⟨rooms, rows⟩ := rows_relocate movable
  have applied := Moved.apply h indexed room directories files rooms
  rw [eq, eq, rows]
  exact ⟨congrArg (fun n => ending.map fun () => n) applied.same, applied.symbols,
    applied.indexed, applied.room⟩

end Line
end Dwarf2
