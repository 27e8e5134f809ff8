/-
What stands in front of the instructions of a line number program.

The header, the include directories and the files are read from the section, and the
instructions from the part of it that the header tells.  With a prologue that is complete, a run
is what the instructions come to: `run_of_prologue`.  The prologue stays as it is when another
program is put behind it: `Exchanged`.
-/
import Dwarf2.Proofs.Line.Instruction
import Dwarf2.Proofs.Line.Program

namespace Dwarf2
namespace Line

theorem itemsProgress_readFile? (s : Section) : (readFile? s).ItemsProgress s.bytes.size :=
  (readFile?_progresses s).items

def readFiles (s : Section) : Read (List File) :=
  Read.many (readFile? s) s.bytes.size (itemsProgress_readFile? s)

/-- The header and the tables behind it. -/
def readPrologue (s : Section) : Read (Header × List String × List File) := do
  let h ← Header.read s
  let included ← readDirectories s
  let files ← readFiles s
  return (h, included, files)

variable {s s' : Section} {h : Header} {included : List String} {files : List File}
  {offset stop : Nat} {compDir : Option String} {addressSize : UInt8} {base : UInt64}
  {t : Symbol.Table}

/-- The bytes up to the end of the program. -/
def Header.section (h : Header) (s : Section) : Section :=
  { s with bytes := s.bytes.extract 0 h.stop }

theorem Header.lt_size_of_read (read : (Header.read s).run offset = .ok (h, stop)) :
    offset < s.bytes.size := by
  obtain ⟨_, _, first, read⟩ := Read.run_bind_eq_ok.1 read
  cases first
  obtain ⟨_, _, length, -⟩ := Read.run_bind_eq_ok.1 read
  have := (s.number_progresses (by decide)).map UInt64.toUInt32 _ _ _ length
  omega

theorem collectFiles_of_readFiles {start : Nat}
    (run : (readFiles s).run start = .ok (files, stop)) :
    collectFiles s start = (files, .ok ()) := by
  rw [readFiles, Read.many, Read.run_ofRun] at run
  unfold collectFiles
  rcases all : Read.collect (readFile? s) s.bytes.size (itemsProgress_readFile? s) start with
    ⟨items, e | stop'⟩
  · rw [all] at run
    cases run
  · rw [all] at run
    cases run
    rfl

/-- With the prologue complete, the files are named and the rows of the instructions attached. -/
theorem run_of_prologue (read : (readPrologue s).run offset = .ok ((h, included, files), stop)) :
    run s offset compDir addressSize base t =
      let named := internFiles (directoriesOf compDir included) files t
      let instructions := Instruction.collect (h.section s) h addressSize h.program
      let attached := (Row.ofInstructions h base instructions.1).foldl (attach named.1) (0, named.2)
      (instructions.2.map fun () => attached.1, attached.2) := by
  obtain ⟨_, behind, header, read⟩ := Read.run_bind_eq_ok.1 read
  obtain ⟨_, next, directories, read⟩ := Read.run_bind_eq_ok.1 read
  obtain ⟨_, _, all, read⟩ := Read.run_bind_eq_ok.1 read
  cases read
  have inside : ¬s.bytes.size ≤ offset := Nat.not_le.2 (Header.lt_size_of_read header)
  have tables : (do
      let h ← Header.read s
      return (h, ← readDirectories s) : Read (Header × List String)).run offset =
        .ok ((h, included), next) :=
    Read.run_bind_eq_ok.2 ⟨_, _, header, Read.run_bind_eq_ok.2 ⟨_, _, directories, rfl⟩⟩
  unfold run
  rw [if_neg inside]
  dsimp only
  rw [tables]
  dsimp only
  rw [collectFiles_of_readFiles all]
  rfl

theorem exists_readFiles {start : Nat} (all : collectFiles s start = (files, .ok ())) :
    ∃ stop, (readFiles s).run start = .ok (files, stop) := by
  rw [readFiles, Read.many, Read.run_ofRun]
  unfold collectFiles at all
  rcases read : Read.collect (readFile? s) s.bytes.size (itemsProgress_readFile? s) start with
    ⟨items, e | stop⟩
  · rw [read] at all
    cases all
  · rw [read] at all
    cases all
    exact ⟨stop, rfl⟩

/-- A program: how its opcodes are read, and the instructions that can be. -/
structure Program where
  header : Header
  instructions : List Instruction

def Program.rows (p : Program) (base : UInt64) : List Row :=
  Row.ofInstructions p.header base p.instructions

/-- The program at an offset, if its prologue is complete. -/
def program? (s : Section) (offset : Nat) (addressSize : UInt8) : Option Program :=
  ((readPrologue s).value offset).toOption.map fun (h, _) =>
    ⟨h, (Instruction.collect (h.section s) h addressSize h.program).1⟩

/-- The rows of the program at an offset. -/
def rows (s : Section) (offset : Nat) (addressSize : UInt8) (base : UInt64) : List Row :=
  ((program? s offset addressSize).map fun p => p.rows base).getD []

theorem rows_of_prologue
    (prologue : (readPrologue s).run offset = .ok ((h, included, files), stop)) :
    rows s offset addressSize base = Row.ofInstructions h base
      (Instruction.collect (h.section s) h addressSize h.program).1 := by
  rw [rows, program?, Read.value, prologue]
  rfl

theorem rows_of_error {e : Error} (failed : (readPrologue s).run offset = .error e) :
    rows s offset addressSize base = [] := by
  rw [rows, program?, Read.value, failed]
  rfl

/-- The base and the table have a part in a run only when the rows are attached. -/
theorem exists_apply (s : Section) (offset : Nat) (compDir : Option String) (addressSize : UInt8) :
    ∃ directories files, ∃ ending : Except Error Unit, ∀ base t,
      run s offset compDir addressSize base t =
        let applied := apply directories files (rows s offset addressSize base) t
        (ending.map fun () => applied.1, applied.2) := by
  match read : (readPrologue s).run offset with
  | .ok ((h, included, files), stop) =>
    refine ⟨directoriesOf compDir included, files,
      (Instruction.collect (h.section s) h addressSize h.program).2, fun base t => ?_⟩
    rw [run_of_prologue read, rows_of_prologue read]
    rfl
  | .error failed =>
    simp only [rows_of_error read]
    unfold run
    split
    · exact ⟨#[], [], .error _, fun _ _ => rfl⟩
    dsimp only
    split
    · rename_i e _
      exact ⟨#[], [], .error e, fun _ _ => rfl⟩
    rename_i h included next tables
    match all : collectFiles s next with
    | (files, .error e) => exact ⟨directoriesOf compDir included, files, .error e, fun _ _ => rfl⟩
    | (files, .ok ()) =>
      -- Then nothing of the prologue would have failed.
      obtain ⟨_, behind, header, tables⟩ := Read.run_bind_eq_ok.1 tables
      obtain ⟨_, _, directories, tables⟩ := Read.run_bind_eq_ok.1 tables
      cases tables
      obtain ⟨stop, all⟩ := exists_readFiles all
      have complete : (readPrologue s).run offset = .ok ((h, included, files), stop) :=
        Read.run_bind_eq_ok.2 ⟨_, behind, header, Read.run_bind_eq_ok.2 ⟨_, next, directories,
          Read.run_bind_eq_ok.2 ⟨_, stop, all, rfl⟩⟩⟩
      rw [read] at complete
      cases complete

/-! ## Where the prologue ends, and where the program begins -/

theorem le_size_of_readFiles {start : Nat} (run : (readFiles s).run start = .ok (files, stop)) :
    stop ≤ s.bytes.size := by
  refine Read.many_induction (P := fun _ _ stop => stop ≤ s.bytes.size) ?_
    (fun _ _ _ _ _ _ ih => ih) run
  intro start stop run
  obtain ⟨name, middle, string, run⟩ := Read.run_bind_eq_ok.1 run
  split at run
  · cases run
    exact s.le_size_of_string ⟨name, string⟩
  · obtain ⟨_, _, -, run⟩ := Read.run_bind_eq_ok.1 run
    obtain ⟨_, _, -, run⟩ := Read.run_bind_eq_ok.1 run
    cases run

theorem le_size_of_readPrologue
    (run : (readPrologue s).run offset = .ok ((h, included, files), stop)) :
    stop ≤ s.bytes.size := by
  obtain ⟨_, _, -, run⟩ := Read.run_bind_eq_ok.1 run
  obtain ⟨_, _, -, run⟩ := Read.run_bind_eq_ok.1 run
  obtain ⟨_, _, all, run⟩ := Read.run_bind_eq_ok.1 run
  cases run
  exact le_size_of_readFiles all

/-- No program begins in the length in front of its header. -/
theorem le_program_of_readPrologue
    (run : (readPrologue s).run offset = .ok ((h, included, files), stop)) :
    offset + 4 ≤ h.program := by
  obtain ⟨_, _, run, rest⟩ := Read.run_bind_eq_ok.1 run
  obtain ⟨_, _, -, rest⟩ := Read.run_bind_eq_ok.1 rest
  obtain ⟨_, _, -, rest⟩ := Read.run_bind_eq_ok.1 rest
  cases rest
  obtain ⟨_, _, position, run⟩ := Read.run_bind_eq_ok.1 run
  cases position
  obtain ⟨_, behind, size, run⟩ := Read.run_bind_eq_ok.1 run
  obtain ⟨_, _, version, run⟩ := Read.run_bind_eq_ok.1 run
  obtain ⟨headerLength, fields, length, run⟩ := Read.run_bind_eq_ok.1 run
  obtain ⟨_, _, position, run⟩ := Read.run_bind_eq_ok.1 run
  cases position
  have begins : behind = offset + 4 :=
    ((s.lands_number 4 offset behind).1 ((Read.lands_map _ _ _ _).1 ⟨_, size⟩)).1
  have forward := Nat.le_trans (Read.le_of_run version) (Read.le_of_run length)
  have program : h.program = fields + headerLength.toNat := by
    obtain ⟨_, _, -, run⟩ := Read.run_bind_eq_ok.1 run
    obtain ⟨_, _, -, run⟩ := Read.run_bind_eq_ok.1 run
    obtain ⟨_, _, -, run⟩ := Read.run_bind_eq_ok.1 run
    obtain ⟨_, _, -, run⟩ := Read.run_bind_eq_ok.1 run
    obtain ⟨_, _, -, run⟩ := Read.run_bind_eq_ok.1 run
    split at run
    · split at run
      · obtain ⟨_, _, -, run⟩ := Read.run_bind_eq_ok.1 run
        cases run
        rfl
      · cases run
    · cases run
  omega

/-! ## The same prologue in another section -/

/-- The header but for the end of the program, which is told by the length in front of it. -/
theorem Header.read_of_agrees {high : Nat} {length length' : UInt32}
    (agrees : s.Agrees s' (offset + 4) high) (size : s.uint32.run offset = .ok (length, offset + 4))
    (size' : s'.uint32.run offset = .ok (length', offset + 4))
    (read : (Header.read s).run offset = .ok (h, stop)) (le : stop ≤ high) :
    offset + 4 ≤ stop ∧ h.stop = min (offset + 4 + length.toNat) s.bytes.size ∧
      (Header.read s').run offset =
        .ok ({ h with stop := min (offset + 4 + length'.toNat) s'.bytes.size }, stop) := by
  obtain ⟨_, _, position, read⟩ := Read.run_bind_eq_ok.1 read
  cases position
  obtain ⟨_, _, first, read⟩ := Read.run_bind_eq_ok.1 read
  cases size.symm.trans first
  have carried {α : Type} {x x' : Read α} (h : s.Carries s' x x') :
      x.Agrees (offset + 4) high Eq x' := .of_carries agrees h
  -- The fields behind the length, and what becomes of them.
  suffices rest : Read.Agrees (offset + 4) high
      (fun h h' : Header => h.stop = min (offset + 4 + length.toNat) s.bytes.size ∧
        h' = { h with stop := min (offset + 4 + length'.toNat) s'.bytes.size }) _ _ by
    obtain ⟨h', read', told, rfl⟩ := rest _ _ _ (Nat.le_refl _) read le
    exact ⟨Read.le_of_run read, told, Read.run_bind_eq_ok.2 ⟨offset, offset, rfl,
      Read.run_bind_eq_ok.2 ⟨length', offset + 4, size', read'⟩⟩⟩
  refine .bind (carried (Section.carries_uint16 agrees.order)) fun _ => ?_
  refine .bind (carried (Section.carries_uint32 agrees.order)) fun _ => ?_
  refine .bind .position fun _ => ?_
  refine .bind (carried (Section.carries_uint8 agrees.order)) fun _ => ?_
  refine .bind (carried (Section.carries_uint8 agrees.order)) fun _ => ?_
  refine .bind (carried (Section.carries_int8 agrees.order)) fun _ => ?_
  refine .bind (carried (Section.carries_uint8 agrees.order)) fun lineRange => ?_
  refine .bind (carried (Section.carries_uint8 agrees.order)) fun opcodeBase => ?_
  refine .dite (fun _ => .dite (fun _ => ?_) fun _ => .fail) fun _ => .fail
  exact .bind (carried (Section.carries_block s s' _)) fun _ => .pure ⟨rfl, rfl⟩

theorem readPrologue_of_agrees {high : Nat} {length length' : UInt32}
    (agrees : s.Agrees s' (offset + 4) high) (size : s.uint32.run offset = .ok (length, offset + 4))
    (size' : s'.uint32.run offset = .ok (length', offset + 4))
    (read : (readPrologue s).run offset = .ok ((h, included, files), stop)) (le : stop ≤ high) :
    h.stop = min (offset + 4 + length.toNat) s.bytes.size ∧
      (readPrologue s').run offset =
        .ok (({ h with stop := min (offset + 4 + length'.toNat) s'.bytes.size }, included, files),
          stop) := by
  obtain ⟨h₀, behind, header, read⟩ := Read.run_bind_eq_ok.1 read
  have forward := Read.le_of_run read
  obtain ⟨le', told, header'⟩ :=
    Header.read_of_agrees agrees size size' header (Nat.le_trans forward le)
  have string := Read.Agrees.of_carries agrees (Section.carries_string s s')
  have file : Read.Agrees (offset + 4) high Eq (readFile? s) (readFile? s') := by
    refine .bind string fun _ => .ite (fun _ => .pure rfl) fun _ => ?_
    refine .bind (.of_carries agrees (Section.carries_unsigned s s')) fun _ => ?_
    exact .bind (.of_carries agrees (Instruction.carries_readOperands s s' 2)) fun _ => .pure rfl
  have tables (h' : Header) : Read.Agrees (offset + 4) high
      (fun r r' => r = (h₀, r.2) ∧ r' = (h', r.2))
      (do return (h₀, ← readDirectories s, ← readFiles s))
      (do return (h', ← readDirectories s', ← readFiles s')) :=
    .bind (.many (string.map _)) fun _ => .bind (.many file) fun _ => .pure ⟨rfl, rfl⟩
  obtain ⟨_, read', same, rfl⟩ := tables _ behind _ stop le' read le
  cases same
  exact ⟨told, Read.run_bind_eq_ok.2 ⟨_, behind, header', read'⟩⟩

/-- The same, by the bytes of the lengths. -/
theorem readPrologue_of_holds {high : Nat} {length length' : List UInt8}
    (agrees : s.Agrees s' (offset + 4) high) (width : length.length = 4)
    (width' : length'.length = 4) (holds : s.bytes.Holds offset length)
    (holds' : s'.bytes.Holds offset length')
    (read : (readPrologue s).run offset = .ok ((h, included, files), stop)) (le : stop ≤ high) :
    h.stop = min (offset + 4 + s.order.value length) s.bytes.size ∧
      (readPrologue s').run offset =
        .ok (({ h with stop := min (offset + 4 + s.order.value length') s'.bytes.size }, included,
          files), stop) := by
  obtain ⟨n, value, size⟩ := Section.reads_uint32 (s := s) width
  obtain ⟨n', value', size'⟩ := Section.reads_uint32 (s := s') width'
  rw [← value, ← agrees.order, ← value']
  exact readPrologue_of_agrees agrees (width ▸ size _ holds) (width' ▸ size' _ holds') read le

/-! ## Another program behind the same prologue -/

theorem size_section (s : Section) (h : Header) (inside : h.stop ≤ s.bytes.size) :
    (h.section s).bytes.size = h.stop := by
  rw [Header.section, Array.size_extract]
  omega

/-- Two sections that differ in a program and in the length in front of its header, which is set to
match. -/
structure Exchanged (s s' : Section)
    (front length length' middle program program' back : List UInt8) : Prop where
  bytes : s.bytes.toList = front ++ length ++ middle ++ program ++ back
  bytes' : s'.bytes.toList = front ++ length' ++ middle ++ program' ++ back
  order : s'.order = s.order
  width : length.length = 4
  width' : length'.length = 4
  adjusted : s.order.value length' + program.length = s.order.value length + program'.length

namespace Exchanged

variable {front length length' middle program program' back : List UInt8}

theorem symm (e : Exchanged s s' front length length' middle program program' back) :
    Exchanged s' s front length' length middle program' program back where
  bytes := e.bytes'
  bytes' := e.bytes
  order := e.order.symm
  width := e.width'
  width' := e.width
  adjusted := by rw [e.order, e.adjusted]

theorem holds (e : Exchanged s s' front length length' middle program program' back) :
    s.bytes.Holds front.length (length ++ (middle ++ (program ++ back))) :=
  ⟨front, [], rfl, by simp [e.bytes]⟩

theorem size (e : Exchanged s s' front length length' middle program program' back) :
    s.bytes.size = front.length + 4 + middle.length + program.length + back.length := by
  have total := congrArg List.length e.bytes
  have width := e.width
  simp only [Array.length_toList, List.length_append] at total
  omega

theorem le_size (e : Exchanged s s' front length length' middle program program' back)
    (begins : h.program = front.length + 4 + middle.length)
    (ends : h.stop = h.program + program.length) : h.program ≤ (h.section s).bytes.size := by
  have size := e.size
  rw [size_section s h (by omega)]
  omega

/-- What the header tells to be the program is that. -/
theorem rest (e : Exchanged s s' front length length' middle program program' back)
    (begins : h.program = front.length + 4 + middle.length)
    (ends : h.stop = h.program + program.length) :
    (h.section s).bytes.rest h.program = program := by
  have holds := (e.width ▸ e.holds.right).right.left
  rw [← begins] at holds
  show Bytes.rest (s.bytes.extract 0 h.stop) h.program = program
  rw [Bytes.rest_extract, ends]
  exact Bytes.between_of_holds holds

/-- Tables that end before the program do not change with it. -/
theorem readPrologue_eq (e : Exchanged s s' front length length' middle program program' back)
    (prologue : (readPrologue s).run front.length = .ok ((h, included, files), stop))
    (behind : stop ≤ h.program) (begins : h.program = front.length + 4 + middle.length)
    (ends : h.stop = h.program + program.length) :
    (readPrologue s').run front.length =
      .ok (({ h with stop := h.program + program'.length }, included, files), stop) := by
  have size := e.size
  have size' := e.symm.size
  have agrees : s.Agrees s' (front.length + 4) h.program := by
    have between := Bytes.between_of_holds (e.width ▸ e.holds.right).left
    have between' := Bytes.between_of_holds (e.width' ▸ e.symm.holds.right).left
    exact ⟨e.order, begins ▸ between'.trans between.symm, by omega, by omega⟩
  obtain ⟨told, prologue'⟩ := readPrologue_of_holds agrees e.width e.width' e.holds.left
    e.symm.holds.left prologue behind
  have adjusted := e.adjusted
  have stop' : min (front.length + 4 + s.order.value length') s'.bytes.size =
      h.program + program'.length := by omega
  rw [← stop']
  exact prologue'

end Exchanged

end Line
end Dwarf2
