/-
Line number programs that are cut short.

The length in front of a program tells where it ends, and nothing else goes by it.  Where it is too
small, the program ends in the middle of an instruction, perhaps.  That one is not read then, and it
is not taken for another: what is read is the beginning of what the whole program says, and so is
what comes of it, `run_of_shortened`.
-/
import Dwarf2.Proofs.Line.Compression
import Dwarf2.Proofs.Line.Repetition

namespace Dwarf2
namespace Line

variable {s s' : Section} {h : Header} {addressSize : UInt8} {base : UInt64}
  {front length length' back : List UInt8} {included : List String} {files : List File}
  {offset stop : Nat}

/-! ## Instructions -/

/-- An instruction that ends before the cut is read alike, and the others come after it. -/
theorem Instruction.collectFrom_prefix {low : Nat} (agrees : s.Agrees s' low s.bytes.size)
    (h : Header) (addressSize : UInt8) (inside : Bool) {start : Nat} (le : low ≤ start) :
    (collectFrom s h addressSize inside start).1 <+:
      (collectFrom s' h addressSize inside start).1 := by
  by_cases done : !inside && s.bytes.size ≤ start
  · rw [collectFrom_done done]
    exact List.nil_prefix
  match run : (read s h addressSize).run start with
  | .error e =>
    rw [collectFrom_error done run]
    exact List.nil_prefix
  | .ok (i, next) =>
    have progress := read_progresses s h addressSize start i next run
    -- All bytes of the instruction are there, and it is read from the same ones.
    have carries := carries_read agrees.order h addressSize
    have within := (carries start i next (Nat.le_of_lt progress.1) run).1
    obtain ⟨_, run', rfl⟩ := Read.Agrees.of_carries agrees carries start i next le run within
    rw [collectFrom_ok run, collectFrom_ok run']
    exact List.cons_prefix_cons.2
      ⟨rfl, collectFrom_prefix agrees h addressSize _ (Nat.le_trans le (Read.le_of_run run))⟩
termination_by s.bytes.size - start

theorem Row.ofInstructions_prefix {instructions all : List Instruction}
    (cut : instructions <+: all) (h : Header) (base : UInt64) :
    ofInstructions h base instructions <+: ofInstructions h base all := by
  obtain ⟨more, rfl⟩ := cut
  rw [ofInstructions, ofInstructions, List.foldl_append, foldl_step h base _ _ _ more,
    List.reverse_append]
  exact List.prefix_append _ _

/-! ## The prologue -/

/-- Two sections that differ in the length in front of a header, where the first has the smaller. -/
structure Shortened (s s' : Section) (front length length' back : List UInt8) : Prop where
  bytes : s.bytes.toList = front ++ length ++ back
  bytes' : s'.bytes.toList = front ++ length' ++ back
  order : s'.order = s.order
  width : length.length = 4
  width' : length'.length = 4
  le : s.order.value length ≤ s.order.value length'

namespace Shortened

theorem holds (shortened : Shortened s s' front length length' back) :
    s.bytes.Holds front.length (length ++ back) ∧ s'.bytes.Holds front.length (length' ++ back) :=
  ⟨⟨front, [], rfl, by simp [shortened.bytes]⟩, ⟨front, [], rfl, by simp [shortened.bytes']⟩⟩

theorem size_eq (shortened : Shortened s s' front length length' back) :
    s'.bytes.size = s.bytes.size := by
  have total := congrArg List.length shortened.bytes
  have total' := congrArg List.length shortened.bytes'
  have width := shortened.width
  have width' := shortened.width'
  simp only [Array.length_toList, List.length_append] at total total'
  omega

theorem agrees (shortened : Shortened s s' front length length' back) :
    s.Agrees s' (front.length + 4) s.bytes.size := by
  obtain ⟨holds, holds'⟩ := shortened.holds
  have total := congrArg List.length shortened.bytes
  have width := shortened.width
  simp only [Array.length_toList, List.length_append] at total
  have between := Bytes.between_of_holds (width ▸ holds.right)
  have between' := Bytes.between_of_holds (shortened.width' ▸ holds'.right)
  have last : front.length + 4 + back.length = s.bytes.size := by omega
  rw [last] at between between'
  exact ⟨shortened.order, between'.trans between.symm, Nat.le_refl _,
    Nat.le_of_eq shortened.size_eq.symm⟩

/-- The prologue is the same, but for the end of the program. -/
theorem readPrologue_eq (shortened : Shortened s s' front length length' back)
    (prologue : (readPrologue s).run front.length = .ok ((h, included, files), stop)) :
    ∃ n, front.length + 4 ≤ h.stop ∧ h.stop ≤ n ∧ n ≤ s.bytes.size ∧
      (readPrologue s').run front.length = .ok (({ h with stop := n }, included, files), stop) := by
  obtain ⟨holds, holds'⟩ := shortened.holds
  obtain ⟨told, prologue'⟩ := readPrologue_of_holds shortened.agrees shortened.width
    shortened.width' holds.left holds'.left prologue (le_size_of_readPrologue prologue)
  have le := shortened.le
  have size := shortened.size_eq
  have inside := holds.left.le_size
  rw [shortened.width] at inside
  exact ⟨_, by omega, by omega, by omega, prologue'⟩

/-- Up to where the first program ends, they are the same. -/
theorem agrees_section (shortened : Shortened s s' front length length' back) {n : Nat}
    (low : front.length + 4 ≤ h.stop) (le : h.stop ≤ n) (inside : n ≤ s.bytes.size) :
    (h.section s).Agrees (Header.section { h with stop := n } s') (front.length + 4)
      (h.section s).bytes.size := by
  have within : h.stop ≤ s.bytes.size := Nat.le_trans le inside
  have holds := shortened.agrees.holds (Nat.le_refl _) low within
  have between := Bytes.between_of_holds holds
  rw [Bytes.length_between low within] at between
  have cut (bytes : Bytes) {stop : Nat} (le : h.stop ≤ stop) :
      Bytes.between (bytes.extract 0 stop) (front.length + 4) h.stop =
        bytes.between (front.length + 4) h.stop := by
    rw [Bytes.between, Array.extract_extract, Nat.zero_add, Nat.zero_add, Nat.min_eq_left le]
    rfl
  rw [size_section s h within]
  refine ⟨shortened.order, ?_, ?_, ?_⟩
  · exact (cut s'.bytes le).trans (between.trans (cut s.bytes (Nat.le_refl _)).symm)
  · rw [size_section s h within]
  · rw [size_section s' _ (shortened.size_eq ▸ inside)]
    exact le

theorem rows_prefix (shortened : Shortened s s' front length length' back) {n : Nat}
    (low : front.length + 4 ≤ h.stop) (le : h.stop ≤ n) (inside : n ≤ s.bytes.size)
    (program : front.length + 4 ≤ h.program) (addressSize : UInt8) (base : UInt64) :
    Row.ofInstructions h base (Instruction.collect (h.section s) h addressSize h.program).1 <+:
      Row.ofInstructions { h with stop := n } base (Instruction.collect
        (Header.section { h with stop := n } s') { h with stop := n } addressSize h.program).1 := by
  rw [Instruction.collect_eq, Instruction.collect_eq,
    Instruction.collectFrom_stop (Header.section { h with stop := n } s') h n]
  exact Row.ofInstructions_prefix (Instruction.collectFrom_prefix
    (shortened.agrees_section low le inside) h addressSize false program) h base

end Shortened

/-! ## Runs -/

/-- Without a prologue, no function gets a line. -/
theorem linesOf_run_of_error {e : Error} (failed : (readPrologue s).run offset = .error e)
    (compDir : Option String) (t : Symbol.Table) (id : SymbolId) :
    (run s offset compDir addressSize base t).2.linesOf id = t.linesOf id := by
  obtain ⟨directories, files, ending, eq⟩ := exists_apply s offset compDir addressSize
  rw [eq, rows_of_error failed]
  have symbols := symbols_internFiles directories files t
  show (internFiles directories files t).2.linesOf id = t.linesOf id
  unfold Symbol.Table.linesOf Symbol.Table.function? Symbol.Table.get?
  rw [symbols]

/-- A program that is cut short has fewer rows, and with it every function has some of the lines
that it has with the whole program. -/
theorem run_of_shortened (shortened : Shortened s s' front length length' back)
    (compDir : Option String) (addressSize : UInt8) (base : UInt64) (t : Symbol.Table) :
    rows s front.length addressSize base <+: rows s' front.length addressSize base ∧
      ∀ id, ((run s front.length compDir addressSize base t).2.linesOf id).Sublist
        ((run s' front.length compDir addressSize base t).2.linesOf id) := by
  match read : (readPrologue s).run front.length with
  | .error e =>
    constructor
    · rw [rows_of_error read]
      exact List.nil_prefix
    · intro id
      rw [linesOf_run_of_error read]
      exact (gains_run s' front.length compDir addressSize base t).linesOf_sublist id
  | .ok ((h, included, files), stop) =>
    obtain ⟨n, low, le, inside, read'⟩ := shortened.readPrologue_eq read
    have begins := le_program_of_readPrologue read
    have cut := shortened.rows_prefix low le inside begins addressSize base
    constructor
    · rw [rows_of_prologue read, rows_of_prologue read']
      exact cut
    · intro id
      obtain ⟨more, all⟩ := cut
      rw [run_of_prologue read, run_of_prologue read']
      dsimp only
      rw [← all, List.foldl_append]
      exact (gains_foldl_attach _ more _).linesOf_sublist id

/-- The length ends the program in the middle of its last instruction. -/
theorem run_cut :
    let s : Section := ⟨.lines, .little, ([39, 0, 0, 0] ++ Compressed.bytes.rest 4).toArray⟩
    let s' : Section := ⟨.lines, .little, Compressed.bytes⟩
    Shortened s s' [] [39, 0, 0, 0] [41, 0, 0, 0] (Compressed.bytes.rest 4) ∧
      rows s 0 4 0 <+: rows s' 0 4 0 ∧
      ∀ id, ((run s 0 none 4 0 (Compressed.table {})).2.linesOf id).Sublist
        ((run s' 0 none 4 0 (Compressed.table {})).2.linesOf id) := by
  intro s s'
  have shortened : Shortened s s' [] [39, 0, 0, 0] [41, 0, 0, 0] (Compressed.bytes.rest 4) :=
    ⟨by simp [s], by decide, rfl, rfl, rfl, by decide⟩
  exact ⟨shortened, run_of_shortened shortened none 4 0 (Compressed.table {})⟩

end Line
end Dwarf2
