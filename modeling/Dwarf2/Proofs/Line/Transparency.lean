/-
Instructions that describe no row.

Columns and files of their own are read and forgotten, and so is what is not known.  Statements and
basic blocks leave marks, which no row goes by.  A program that leaves some of these instructions
out does the same, as long as it has the length that goes with it: `run_of_thins`.
-/
import Dwarf2.Proofs.Line.Sequence

namespace Dwarf2
namespace Line

/-- The instruction says something that rows do not have. -/
def Instruction.isTransparent : Instruction → Bool
  | setColumn _ | negateStatement | setBasicBlock | defineFile => true
  | unknownStandard _ | unknownExtended _ => true
  | _ => false

variable {s s' : Section} {order : ByteOrder} {h : Header} {addressSize : UInt8} {base : UInt64}
  {inside : Bool}

/-! ## Rows without marks -/

namespace Row

variable {m m' : Machine}

/-- The machines have come to the same rows and to the same registers, whatever their marks. -/
structure Machine.Alike (m m' : Machine) : Prop where
  rows : m'.rows = m.rows
  registers : m'.registers = m.registers

namespace Machine.Alike

theorem refl (m : Machine) : m.Alike m :=
  ⟨rfl, rfl⟩

theorem trans {m m' m'' : Machine} (h : m.Alike m') (h' : m'.Alike m'') : m.Alike m'' :=
  ⟨h'.rows.trans h.rows, h'.registers.trans h.registers⟩

/-- Neither the marks nor what the header says of statements makes a difference to a row. -/
theorem step (alike : m.Alike m') (isStatement : Bool) (i : Instruction) :
    (m.step h base i).Alike (m'.step { h with defaultIsStatement := isStatement } base i) := by
  have registers : m'.registers.step { h with defaultIsStatement := isStatement } base i =
      m.registers.step h base i := by
    rw [alike.registers]
    cases i <;> rfl
  constructor
  · simp only [Machine.step, registers, alike.rows]
  · simp only [Machine.step, registers]

theorem foldl (alike : m.Alike m') (isStatement : Bool) (instructions : List Instruction) :
    (instructions.foldl (Machine.step h base) m).Alike
      (instructions.foldl (Machine.step { h with defaultIsStatement := isStatement } base) m') := by
  induction instructions generalizing m m' with
  | nil => exact alike
  | cons i rest ih => exact ih (alike.step isStatement i)

/-- What is transparent changes the marks at most. -/
theorem of_isTransparent {i : Instruction} (transparent : i.isTransparent = true) (m : Machine) :
    (m.step h base i).Alike m := by
  cases i with
  | setColumn | negateStatement | setBasicBlock | defineFile | unknownStandard | unknownExtended =>
    exact ⟨rfl, rfl⟩
  | _ => cases transparent

end Machine.Alike

/-- Whether rows begin statements does not matter to them. -/
theorem ofInstructions_defaultIsStatement (h : Header) (isStatement : Bool) (base : UInt64)
    (instructions : List Instruction) :
    ofInstructions { h with defaultIsStatement := isStatement } base instructions =
      ofInstructions h base instructions := by
  have start : (Machine.start h).Alike
      (Machine.start { h with defaultIsStatement := isStatement }) :=
    ⟨rfl, rfl⟩
  exact congrArg List.reverse (start.foldl isStatement instructions).rows

end Row

/-! ## Programs without transparent instructions -/

/-- Some transparent instructions are left out, and all others kept. -/
inductive Thins : List (Written order h addressSize) → List (Written order h addressSize) → Prop
  | nil : Thins [] []
  | keep (w : Written order h addressSize) {code code' : List (Written order h addressSize)}
      (more : Thins code code') : Thins (w :: code) (w :: code')
  | drop {w : Written order h addressSize} {code code' : List (Written order h addressSize)}
      (transparent : w.instruction.isTransparent = true) (more : Thins code code') :
      Thins (w :: code) code'

namespace Thins

open Written

variable {code code' : List (Written order h addressSize)}

theorem alike_foldl (thins : Thins code code') {m m' : Row.Machine} (alike : m.Alike m') :
    ((instructionsOf code).foldl (Row.Machine.step h base) m).Alike
      ((instructionsOf code').foldl (Row.Machine.step h base) m') := by
  induction thins generalizing m m' with
  | nil => exact alike
  | keep w _ ih => exact ih (alike.step h.defaultIsStatement w.instruction)
  | @drop w _ _ transparent _ ih =>
    exact ih ((Row.Machine.Alike.of_isTransparent transparent m).trans alike)

/-- No sequence loses its end. -/
theorem complete (thins : Thins code code') (complete : Complete inside (instructionsOf code)) :
    Complete inside (instructionsOf code') := by
  induction thins generalizing inside with
  | nil => exact complete
  | keep w _ ih => exact ih complete
  | @drop w _ _ transparent _ ih =>
    have goes_on : w.instruction ≠ .endSequence := by
      intro same
      rw [same] at transparent
      cases transparent
    have begun : Complete (decide (w.instruction ≠ .endSequence)) _ := complete
    rw [decide_eq_true goes_on] at begun
    exact (ih begun).of_inside

end Thins

open Written

/-- What describes no row makes no difference.  Instructions that are transparent are left out of
complete sequences, and the length in front of the header is set to match: the run attaches as many
lines and leaves the same table. -/
theorem run_of_thins {front length length' middle back : List UInt8} {included : List String}
    {files : List File} {stop : Nat} {code code' : List (Written s.order h addressSize)}
    (thins : Thins code code') (complete : Complete false (instructionsOf code))
    (exchanged : Exchanged s s' front length length' middle (bytesOf code) (bytesOf code') back)
    (prologue : (readPrologue s).run front.length = .ok ((h, included, files), stop))
    (begins : h.program = front.length + 4 + middle.length)
    (ends : h.stop = h.program + (bytesOf code).length)
    (tables : stop ≤ h.program ∨ ∃ stop', (readPrologue s').run front.length =
      .ok (({ h with stop := h.program + (bytesOf code').length }, included, files), stop'))
    (compDir : Option String) (base : UInt64) (t : Symbol.Table) :
    run s' front.length compDir addressSize base t =
        run s front.length compDir addressSize base t ∧
      ∃ n, (run s front.length compDir addressSize base t).1 = .ok n := by
  obtain ⟨run, run'⟩ := exchanged.run_eq prologue begins ends tables complete
    (thins.complete complete) compDir base t
  have rows : Row.ofInstructions h base (instructionsOf code') =
      Row.ofInstructions h base (instructionsOf code) :=
    congrArg List.reverse (thins.alike_foldl (.refl _)).rows
  dsimp only at run run'
  rw [run, run', rows]
  exact ⟨rfl, _, rfl⟩

namespace Thinned

open Instruction (Encodes Operands)
open Swapped (header encodes_address encodes_special encodes_constAddPc encodes_endSequence first)

theorem encodes_setColumn : Encodes .little header 4 (.setColumn 7) [5, 7] :=
  .setColumn (by decide) ⟨.single (by decide), by decide⟩

theorem encodes_negateStatement : Encodes .little header 4 .negateStatement [6] :=
  .negateStatement (by decide)

/-- The name of the file is empty. -/
theorem encodes_defineFile : Encodes .little header 4 .defineFile [0, 5, 3, 0, 0, 0, 0] := by
  have five : Leb128.Saturates [5] 5 := ⟨.single (by decide), by decide⟩
  have zero : Leb128.Closed [0] := .single (by decide)
  have numbers : Operands 3 [0, 0, 0] := .cons zero (.cons zero (.cons zero .nil))
  exact .extended five (by decide) (.defineFile List.not_mem_nil numbers)

theorem encodes_unknownExtended :
    Encodes .little header 4 (.unknownExtended 0x80) [0, 1, 0x80] := by
  have one : Leb128.Saturates [1] 1 := ⟨.single (by decide), by decide⟩
  exact .extended one (by decide) (.unknown (by decide) rfl)

/-- The program of `Compressed` with four instructions more. -/
def code : List (Written .little header 4) :=
  [⟨_, _, encodes_address⟩, ⟨_, _, encodes_setColumn⟩, ⟨_, _, encodes_special⟩,
    ⟨_, _, encodes_negateStatement⟩, ⟨_, _, encodes_defineFile⟩, ⟨_, _, encodes_unknownExtended⟩,
    ⟨_, _, encodes_constAddPc⟩, ⟨_, _, encodes_endSequence⟩]

def bytes : Bytes :=
  ([54, 0, 0, 0] ++ Compressed.bytes.between 4 33 ++ bytesOf code).toArray

theorem exchanged :
    Exchanged ⟨.lines, .little, bytes⟩ ⟨.lines, .little, Compressed.bytes⟩ [] [54, 0, 0, 0]
      [41, 0, 0, 0] (Compressed.bytes.between 4 33) (bytesOf code) (bytesOf first) [] :=
  ⟨by simp [bytes], by decide, rfl, rfl, rfl, by decide⟩

theorem prologue_eq : (readPrologue ⟨.lines, .little, bytes⟩).run 0 =
    .ok ((header, [], [⟨"a.c", 0⟩]), 33) :=
  exchanged.symm.readPrologue_eq Compressed.prologue (by decide) rfl (by decide)

end Thinned

open Thinned Swapped in
/-- What is left out is a column, a statement, a file and something unknown. -/
theorem run_thinned :
    let s : Section := ⟨.lines, .little, bytes⟩
    let s' : Section := ⟨.lines, .little, Compressed.bytes⟩
    Thins code first ∧ Complete false (instructionsOf code) ∧
      Exchanged s s' [] [54, 0, 0, 0] [41, 0, 0, 0] (Compressed.bytes.between 4 33)
        (bytesOf code) (bytesOf first) [] ∧
      (readPrologue s).run 0 = .ok ((header, [], [⟨"a.c", 0⟩]), 33) ∧
      run s' 0 none 4 0 (Compressed.table {}) = run s 0 none 4 0 (Compressed.table {}) := by
  intro s s'
  have thins : Thins code first :=
    .keep _ (.drop rfl (.keep _ (.drop rfl (.drop rfl (.drop rfl (.keep _ (.keep _ .nil)))))))
  have complete : Complete false (instructionsOf code) := by decide
  exact ⟨thins, complete, Thinned.exchanged, Thinned.prologue_eq, (run_of_thins thins complete
    Thinned.exchanged Thinned.prologue_eq rfl rfl (.inl (by decide)) none 0
      (Compressed.table {})).1⟩

end Line
end Dwarf2
