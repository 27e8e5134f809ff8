/-
Special opcodes, written out.

A special opcode says in one byte what takes three instructions otherwise, and adding the
constant is the same for the address alone.  `Expands` lists the ways to write a program out, at
as many places as one likes, and `run_of_expands` says that nothing comes of it but the length.
-/
import Dwarf2.Proofs.Checked.Line.Program
import Dwarf2.Proofs.Line.Encoding
import Dwarf2.Proofs.Line.Prologue

namespace Dwarf2
namespace Line

/-- The instructions from a position on can be written as the bytes: each is left as it is or
written out, with any padding of the numbers. -/
inductive Expands (s : Section) (h : Header) (addressSize : UInt8) : Nat → List UInt8 → Prop
  /-- The rest stays, and may be no instructions at all. -/
  | rest (start : Nat) : Expands s h addressSize start (s.bytes.rest start)
  | keep {start next : Nat} {i : Instruction} {written : List UInt8}
      (read : (Instruction.read s h addressSize).run start = .ok (i, next))
      (more : Expands s h addressSize next written) :
      Expands s h addressSize start (s.bytes.between start next ++ written)
  | special {start : Nat} {opcode : UInt8} {address line written : List UInt8}
      (here : s.bytes[start]? = some opcode) (special : h.opcodeBase ≤ opcode)
      (advancePc : Leb128.Spells address
        ((opcode.toNat - h.opcodeBase.toNat) / h.lineRange.toNat))
      (advanceLine : Leb128.SpellsSigned line
        (h.lineBase.toInt + ((opcode.toNat - h.opcodeBase.toNat) % h.lineRange.toNat : Nat)))
      (more : Expands s h addressSize (start + 1) written) :
      Expands s h addressSize start ((2 :: address) ++ ((3 :: line) ++ ([1] ++ written)))
  | constAddPc {start : Nat} {address written : List UInt8}
      (here : s.bytes[start]? = some 8) (standard : 8 < h.opcodeBase)
      (advancePc : Leb128.Spells address ((255 - h.opcodeBase.toNat) / h.lineRange.toNat))
      (more : Expands s h addressSize (start + 1) written) :
      Expands s h addressSize start ((2 :: address) ++ written)

variable {s s' : Section} {h : Header} {addressSize : UInt8} {base : UInt64}

/-! ## What special opcodes do -/

/-- How many instructions a special opcode advances the address by. -/
def Header.instructionAdvance (h : Header) (opcode : UInt8) : UInt64 :=
  ((opcode - h.opcodeBase) / h.lineRange).toUInt64

theorem toNat_instructionAdvance {opcode : UInt8} (special : h.opcodeBase ≤ opcode) :
    (h.instructionAdvance opcode).toNat =
      (opcode.toNat - h.opcodeBase.toNat) / h.lineRange.toNat := by
  rw [Header.instructionAdvance, UInt8.toNat_toUInt64, UInt8.toNat_div,
    UInt8.toNat_sub_of_le _ _ special]

theorem toInt_lineAdvance {opcode : UInt8} (special : h.opcodeBase ≤ opcode) :
    (h.lineAdvance opcode).toInt =
      h.lineBase.toInt + ((opcode.toNat - h.opcodeBase.toNat) % h.lineRange.toNat : Nat) := by
  rw [← UInt8.toNat_sub_of_le _ _ special, ← UInt8.toNat_mod, Header.lineAdvance,
    Int64.toInt_add, Int8.toInt_toInt64, Leb128.toInt_toInt64, UInt8.toNat_toUInt64]
  generalize (opcode - h.opcodeBase) % h.lineRange = lines
  have small := lines.toNat_lt
  have low := h.lineBase.le_toInt
  have high := h.lineBase.toInt_lt
  have unsigned : (lines.toNat : Int).bmod (2 ^ 64) = lines.toNat :=
    Int.bmod_eq_of_le (by omega) (by omega)
  rw [unsigned, Int.bmod_eq_of_le (by omega) (by omega)]

namespace Row

theorem step_special (m : Machine) (opcode : UInt8) :
    m.step h base (.special opcode) =
      [.advancePc (h.instructionAdvance opcode), .advanceLine (h.lineAdvance opcode),
        .copy].foldl (Machine.step h base) m :=
  rfl

theorem step_constAddPc (m : Machine) :
    m.step h base .constAddPc = m.step h base (.advancePc (h.instructionAdvance 255)) :=
  rfl

end Row

/-- What comes of instructions that are read: the machine in the end, and whether it has come to
the end. -/
def outcome (h : Header) (base : UInt64) (m : Row.Machine)
    (read : List Instruction × Except Error Unit) : Row.Machine × Option Unit :=
  (read.1.foldl (Row.Machine.step h base) m, read.2.toOption)

@[simp] theorem outcome_cons (m : Row.Machine) (i : Instruction)
    (read : List Instruction × Except Error Unit) :
    outcome h base m (i :: read.1, read.2) = outcome h base (m.step h base i) read :=
  rfl

theorem outcome_eq_of_alike {m : Row.Machine} {read read' : List Instruction × Except Error Unit}
    (alike : Instruction.Alike read read') : outcome h base m read = outcome h base m read' := by
  rw [outcome, outcome, alike.1, alike.2]

/-- An instruction that is read first is run first. -/
theorem outcome_of_reads {i : Instruction} {front written : List UInt8} {start : Nat}
    (there : start ≤ s.bytes.size) (eq : s.bytes.rest start = front ++ written)
    (reads : s.Reads (Instruction.read s h addressSize) i front) (m : Row.Machine)
    (inside : Bool) :
    ∃ next ≤ s.bytes.size, s.bytes.rest next = written ∧
      outcome h base m (Instruction.collectFrom s h addressSize inside start) =
        outcome h base (m.step h base i)
          (Instruction.collectFrom s h addressSize (i ≠ .endSequence) next) := by
  have holds := Bytes.holds_of_rest there eq
  refine ⟨_, holds.le_size, Bytes.rest_add eq, ?_⟩
  rw [Instruction.collectFrom_ok (reads start holds), outcome_cons]

theorem outcome_of_expands (same : s'.order = s.order) (standard : 9 ≤ h.opcodeBase)
    {start start' : Nat} {written : List UInt8} (expands : Expands s h addressSize start written)
    (there : start ≤ s.bytes.size) (there' : start' ≤ s'.bytes.size)
    (eq : s'.bytes.rest start' = written) (m : Row.Machine) (inside : Bool) :
    outcome h base m (Instruction.collectFrom s' h addressSize inside start') =
      outcome h base m (Instruction.collectFrom s h addressSize inside start) := by
  have below (opcode : UInt8) (known : opcode < 9) : opcode < h.opcodeBase :=
    UInt8.lt_of_lt_of_le known standard
  induction expands generalizing start' m inside with
  | rest start =>
    exact (outcome_eq_of_alike
      (Instruction.collectFrom_alike same h addressSize inside there there' eq)).symm
  | @keep start next i written read more ih =>
    have le := (Instruction.carries_read same h addressSize start i next there read).1
    obtain ⟨next', read', le', rest⟩ :=
      (Instruction.carries_read same h addressSize).run_of_rest there there' read eq
    rw [Instruction.collectFrom_ok read, Instruction.collectFrom_ok read', outcome_cons,
      outcome_cons]
    exact ih le le' rest _ _
  | @special start opcode address line written here special advancePc advanceLine more ih =>
    obtain ⟨holds, le⟩ := Bytes.holds_of_getElem? here
    have read : (Instruction.read s h addressSize).run start = .ok (.special opcode, start + 1) :=
      Instruction.reads_special special start holds
    rw [Instruction.collectFrom_ok read, outcome_cons, Row.step_special]
    rw [← toNat_instructionAdvance special] at advancePc
    rw [← toInt_lineAdvance special] at advanceLine
    obtain ⟨first, le₁, rest₁, run₁⟩ := outcome_of_reads there' eq
      (Instruction.reads_read (.advancePc (below 2 (by decide)) advancePc.saturates)) m inside
    obtain ⟨second, le₂, rest₂, run₂⟩ := outcome_of_reads le₁ rest₁
      (Instruction.reads_read (.advanceLine (below 3 (by decide)) advanceLine.wraps)) _ _
    obtain ⟨third, le₃, rest₃, run₃⟩ := outcome_of_reads le₂ rest₂
      (Instruction.reads_read (.copy (below 1 (by decide)))) _ _
    rw [run₁, run₂, run₃]
    exact ih le le₃ rest₃ _ _
  | @constAddPc start address written here standard' advancePc more ih =>
    obtain ⟨holds, le⟩ := Bytes.holds_of_getElem? here
    have read : (Instruction.read s h addressSize).run start = .ok (.constAddPc, start + 1) :=
      Instruction.reads_read (.constAddPc standard') start holds
    rw [Instruction.collectFrom_ok read, outcome_cons, Row.step_constAddPc]
    have last : h.opcodeBase ≤ 255 :=
      UInt8.le_iff_toNat_le.2 (Nat.le_of_lt_succ h.opcodeBase.toNat_lt)
    have constant := toNat_instructionAdvance last
    rw [show (255 : UInt8).toNat = 255 from rfl] at constant
    rw [← constant] at advancePc
    obtain ⟨first, le₁, rest₁, run₁⟩ := outcome_of_reads there' eq
      (Instruction.reads_read (.advancePc (below 2 (by decide)) advancePc.saturates)) m inside
    rw [run₁]
    exact ih le le₁ rest₁ _ _

/-! ## The program between other bytes -/

/-- What a run makes of the instructions goes by their outcome. -/
theorem run_eq_of_outcome {offset stop stop' : Nat} {n : Nat} {included : List String}
    {files : List File}
    (prologue : (readPrologue s).run offset = .ok ((h, included, files), stop))
    (prologue' :
      (readPrologue s').run offset = .ok (({ h with stop := n }, included, files), stop'))
    (same : outcome h base (.start h) (Instruction.collectFrom
        (Header.section { h with stop := n } s') h addressSize false h.program) =
      outcome h base (.start h)
        (Instruction.collectFrom (h.section s) h addressSize false h.program))
    (compDir : Option String) (t : Symbol.Table) :
    (run s' offset compDir addressSize base t).1.toOption =
        (run s offset compDir addressSize base t).1.toOption ∧
      (run s' offset compDir addressSize base t).2 =
        (run s offset compDir addressSize base t).2 := by
  rw [run_of_prologue prologue, run_of_prologue prologue']
  dsimp only
  rw [Instruction.collect_eq, Instruction.collect_eq, Instruction.collectFrom_stop]
  obtain ⟨machine, ending⟩ := Prod.mk.inj same
  have rows : Row.ofInstructions { h with stop := n } base (Instruction.collectFrom
        (Header.section { h with stop := n } s') h addressSize false h.program).1 =
      Row.ofInstructions h base
        (Instruction.collectFrom (h.section s) h addressSize false h.program).1 :=
    congrArg (fun m => m.rows.reverse) machine
  have told (e : Except Error Unit) (count : Nat) :
      (e.map fun () => count).toOption = e.toOption.map fun () => count := by
    cases e <;> rfl
  rw [rows, told, told, ending]
  exact ⟨rfl, rfl⟩

/-- Special opcodes say nothing that the other instructions could not.  Some of them and some of
the additions of the constant are written out, and the length in front of the header is set to
match: the run succeeds where it did, attaches as many lines, and leaves the same table. -/
theorem run_of_expands {front length length' middle program program' back : List UInt8}
    {included : List String} {files : List File} {stop : Nat}
    (bytes : s.bytes.toList = front ++ length ++ middle ++ program ++ back)
    (bytes' : s'.bytes.toList = front ++ length' ++ middle ++ program' ++ back)
    (order : s'.order = s.order) (width : length.length = 4) (width' : length'.length = 4)
    (adjusted : s.order.value length' + program.length =
      s.order.value length + program'.length)
    (prologue : (readPrologue s).run front.length = .ok ((h, included, files), stop))
    (behind : stop ≤ h.program) (begins : h.program = front.length + 4 + middle.length)
    (ends : h.stop = h.program + program.length) (standard : 9 ≤ h.opcodeBase)
    (expands : Expands (h.section s) h addressSize h.program program')
    (compDir : Option String) (base : UInt64) (t : Symbol.Table) :
    (run s' front.length compDir addressSize base t).1.toOption =
        (run s front.length compDir addressSize base t).1.toOption ∧
      (run s' front.length compDir addressSize base t).2 =
        (run s front.length compDir addressSize base t).2 := by
  have holds : s.bytes.Holds front.length (length ++ (middle ++ (program ++ back))) :=
    ⟨front, [], rfl, by simp [bytes]⟩
  have holds' : s'.bytes.Holds front.length (length' ++ (middle ++ (program' ++ back))) :=
    ⟨front, [], rfl, by simp [bytes']⟩
  have total : s.bytes.size =
      front.length + 4 + middle.length + program.length + back.length := by
    have := congrArg List.length bytes
    simp only [Array.length_toList, List.length_append] at this
    omega
  have total' : s'.bytes.size =
      front.length + 4 + middle.length + program'.length + back.length := by
    have := congrArg List.length bytes'
    simp only [Array.length_toList, List.length_append] at this
    omega
  -- The prologue is read alike, but for the length.
  have agrees : s.Agrees s' (front.length + 4) h.program := by
    have between := Bytes.between_of_holds (width ▸ holds.right).left
    have between' := Bytes.between_of_holds (width' ▸ holds'.right).left
    exact ⟨order, begins ▸ between'.trans between.symm, by omega, by omega⟩
  obtain ⟨n, value, size⟩ := Section.reads_uint32 (s := s) width
  obtain ⟨n', value', size'⟩ := Section.reads_uint32 (s := s') width'
  obtain ⟨told, prologue'⟩ := readPrologue_of_agrees agrees (width ▸ size _ holds.left)
    (width' ▸ size' _ holds'.left) prologue behind
  have stop' : min (front.length + 4 + n'.toNat) s'.bytes.size = h.program + program'.length := by
    rw [value', order]
    rw [value] at told
    omega
  rw [stop'] at prologue'
  -- What stands at the end of it is the program, written out.
  have written : s'.bytes.between h.program (h.program + program'.length) = program' := by
    have holds := (width' ▸ holds'.right).right.left
    rw [← begins] at holds
    exact Bytes.between_of_holds holds
  have inside : h.program + program'.length ≤ s'.bytes.size := by omega
  have there : h.program ≤ (h.section s).bytes.size := by
    rw [size_section s h (by omega)]
    omega
  have there' : h.program ≤
      (Header.section { h with stop := h.program + program'.length } s').bytes.size := by
    rw [size_section s' _ inside]
    exact Nat.le_add_right ..
  have order' : (Header.section { h with stop := h.program + program'.length } s').order =
      (h.section s).order := order
  exact run_eq_of_outcome prologue prologue' (outcome_of_expands order' standard expands there
    there' ((Bytes.rest_extract _ _ _).trans written) (.start h) false) compDir t

namespace Compressed

/-- A sequence of two rows behind a prologue with one file. -/
def bytes : Bytes :=
  #[41, 0, 0, 0, 2, 0, 23, 0, 0, 0, 1, 1, 0xfb, 14, 10, 0, 1, 1, 1, 1, 0, 0, 0, 1, 0,
    97, 46, 99, 0, 0, 0, 0, 0, 0, 5, 2, 16, 0, 0, 0, 32, 8, 0, 1, 1]

/-- The same with the one special opcode and the addition of the constant written out. -/
def bytes' : Bytes :=
  #[46, 0, 0, 0, 2, 0, 23, 0, 0, 0, 1, 1, 0xfb, 14, 10, 0, 1, 1, 1, 1, 0, 0, 0, 1, 0,
    97, 46, 99, 0, 0, 0, 0, 0, 0, 5, 2, 16, 0, 0, 0, 2, 1, 3, 3, 1, 2, 17, 0, 1, 1]

def header : Header where
  minInstructionLength := 1
  defaultIsStatement := true
  lineBase := -5
  lineRange := 14
  opcodeBase := 10
  operandCounts := #[0, 1, 1, 1, 1, 0, 0, 0, 1]
  program := 33
  stop := 45
  lineRange_ne_zero := by decide
  opcodeBase_ne_zero := by decide

def written : List UInt8 :=
  [0, 5, 2, 16, 0, 0, 0, 2, 1, 3, 3, 1, 2, 17, 0, 1, 1]

def checkedPrologue : Checked.Reader (Header × List String × List File) := do
  let s : Section := ⟨.lines, .little, bytes⟩
  let h ← Checked.Line.readHeader s
  let included ← Checked.Line.readDirectories s
  let files ← .many (Checked.Line.readFile? s) (s.bytes.size + 1)
  return (h, included, files)

theorem prologue : (readPrologue ⟨.lines, .little, bytes⟩).run 0 =
    .ok ((header, [], [⟨"a.c", 0⟩]), 33) := by
  have small : Checked.Addressable ⟨.lines, .little, bytes⟩ :=
    (by decide : bytes.size < 2 ^ 64)
  have follows : checkedPrologue.Follows (readPrologue ⟨.lines, .little, bytes⟩) 0 := by
    refine .bind (Checked.Line.follows_readHeader small 0) fun _ _ _ => ?_
    refine .bind (Checked.Line.follows_readDirectories small _) fun _ _ _ => ?_
    exact .bind (.many _ (by omega) fun start _ => Checked.Line.follows_readFile? small start)
      fun _ _ _ => .pure _ _
  have evaluated : checkedPrologue 0 = .ok (.ok ((header, [], [⟨"a.c", 0⟩]), 33)) := by
    with_unfolding_all rfl
  exact Except.ok.inj (follows.symm.trans evaluated)

theorem read_setAddress :
    (Instruction.read (header.section ⟨.lines, .little, bytes⟩) header 4).run 33 =
      .ok (.setAddress 16, 40) := by
  have small : Checked.Addressable (header.section ⟨.lines, .little, bytes⟩) :=
    (by decide : (bytes.extract 0 45).size < 2 ^ 64)
  have follows := Checked.Line.follows_readInstruction small header 4 33
  have evaluated : Checked.Line.readInstruction (header.section ⟨.lines, .little, bytes⟩) header 4
      33 = .ok (.ok (.setAddress 16, 40)) := by
    with_unfolding_all rfl
  exact Except.ok.inj (follows.symm.trans evaluated)

theorem instructions_eq :
    let program := header.section ⟨.lines, .little, bytes⟩
    (Instruction.collect program header 4 33).1 =
      [.setAddress 16, .special 32, .constAddPc, .endSequence] := by
  intro program
  have small : Checked.Addressable program :=
    (by decide : (bytes.extract 0 45).size < 2 ^ 64)
  have read {start next : Nat} {i : Instruction}
      (evaluated : Checked.Line.readInstruction program header 4 start =
        .ok (.ok (i, next))) :
      (Instruction.read program header 4).run start = .ok (i, next) :=
    Except.ok.inj ((Checked.Line.follows_readInstruction small _ 4 start).symm.trans evaluated)
  have special : (Instruction.read program header 4).run 40 =
      .ok (.special 32, 41) := read (by with_unfolding_all rfl)
  have constant : (Instruction.read program header 4).run 41 =
      .ok (.constAddPc, 42) := read (by with_unfolding_all rfl)
  have ended : (Instruction.read program header 4).run 42 =
      .ok (.endSequence, 45) := read (by with_unfolding_all rfl)
  rw [Instruction.collect_eq, Instruction.collectFrom_ok read_setAddress,
    Instruction.collectFrom_ok special, Instruction.collectFrom_ok constant,
    Instruction.collectFrom_ok ended, Instruction.collectFrom_done (by decide)]

theorem expands : Expands (header.section ⟨.lines, .little, bytes⟩) header 4 33 written := by
  have single (byte : UInt8) (last : Leb128.isLast byte = true) : Leb128.Closed [byte] :=
    .single last
  have constant : Expands (header.section ⟨.lines, .little, bytes⟩) header 4 41 _ :=
    .constAddPc rfl (by decide) ⟨single 17 (by decide), by decide⟩ (.rest 42)
  have special : Expands (header.section ⟨.lines, .little, bytes⟩) header 4 40 _ :=
    .special rfl (by decide) ⟨single 1 (by decide), by decide⟩ ⟨single 3 (by decide), by decide⟩
      constant
  exact .keep read_setAddress special

/-- The table with a function where the rows are. -/
def table (start : Symbol.Table) : Symbol.Table :=
  (start.push (.function
    { name := "f", compiland := none, address := 16, length := 32, signature := ⟨0⟩ })).2

end Compressed

open Compressed in
/-- The rows of both programs go to the same function. -/
theorem run_compressed :
    (run ⟨.lines, .little, bytes'⟩ 0 none 4 0 (table {})).1.toOption =
        (run ⟨.lines, .little, bytes⟩ 0 none 4 0 (table {})).1.toOption ∧
      (run ⟨.lines, .little, bytes'⟩ 0 none 4 0 (table {})).2 =
        (run ⟨.lines, .little, bytes⟩ 0 none 4 0 (table {})).2 := by
  have parts : (⟨.lines, .little, bytes⟩ : Section).bytes.toList =
      [] ++ [41, 0, 0, 0] ++ bytes.between 4 33 ++ bytes.between 33 45 ++ [] := by decide
  have parts' : (⟨.lines, .little, bytes'⟩ : Section).bytes.toList =
      [] ++ [46, 0, 0, 0] ++ bytes.between 4 33 ++ written ++ [] := by decide
  exact run_of_expands parts parts' rfl rfl rfl (by decide) prologue (by decide) rfl rfl (by decide)
    expands none 0 (table {})

end Line
end Dwarf2
