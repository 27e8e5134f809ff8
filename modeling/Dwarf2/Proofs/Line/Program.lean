/-
What a line number program does to the symbols.

However a program ends, it has named some files and attached some rows until then: `exists_table`.
So it is enough to know what naming a file and attaching a row do.
-/
import Dwarf2.Line.Program
import Dwarf2.Proofs.Symbol.Line

namespace Dwarf2
namespace Line

open Dwarf2.Symbol (Gains)
open Dwarf2.Symbol.Table (Extends)

variable {t : Symbol.Table} {sources : Array SourceId}

/-- Names the files and attaches the rows. -/
def apply (directories : Array String) (files : List File) (rows : List Row) (t : Symbol.Table) :
    Nat × Symbol.Table :=
  let (sources, t) := internFiles directories files t
  rows.foldl (attach sources) (0, t)

/-- A program that fails leaves what the part of it does that has been run. -/
theorem exists_table (s : Section) (offset : Nat) (compDir : Option String) (addressSize : UInt8)
    (base : UInt64) (t : Symbol.Table) :
    ∃ directories files rows,
      (run s offset compDir addressSize base t).2 = (apply directories files rows t).2 := by
  have untouched : ∃ directories files rows, t = (apply directories files rows t).2 :=
    ⟨#[], [], [], rfl⟩
  unfold run
  split
  · exact untouched
  dsimp only
  split
  · exact untouched
  rename_i h included next _
  split
  · exact ⟨directoriesOf compDir included, (collectFiles s next).1, [], rfl⟩
  · exact ⟨directoriesOf compDir included, (collectFiles s next).1, _, rfl⟩

/-! ## Files -/

/-- The sources that were named are in the table. -/
def Named (sources : Array SourceId) (t : Symbol.Table) : Prop :=
  ∀ source ∈ sources, source.index < t.sources.size

theorem internFiles_induction {P : Array SourceId × Symbol.Table → Prop}
    (directories : Array String) (files : List File) (start : P (#[], t))
    (step : ∀ sources t directory name, P (sources, t) →
      P (sources.push (t.internFile directory name).1, (t.internFile directory name).2)) :
    P (internFiles directories files t) :=
  List.foldlRecOn files _ start fun (sources, t) sofar file _ => step sources t _ file.name sofar

/-- Naming files adds sources to the table and changes nothing else. -/
theorem exists_interned (directories : Array String) (files : List File) (t : Symbol.Table) :
    ∃ interned, (internFiles directories files t).2 = { t with interned } := by
  refine internFiles_induction (P := fun r => ∃ interned, r.2 = { t with interned }) directories
    files ⟨t.interned, rfl⟩ ?_
  rintro _ _ directory name ⟨interned, rfl⟩
  exact ⟨_, rfl⟩

theorem gains_internFiles (directories : Array String) (files : List File) (t : Symbol.Table) :
    Extends (fun _ => Gains) t (internFiles directories files t).2 :=
  internFiles_induction (P := fun r => Extends (fun _ => Gains) t r.2) directories files
    (.refl (fun _ => .same) t) fun _ _ _ _ sofar =>
      sofar.trans (fun _ _ _ _ => .trans) (.internFile (fun _ => .same) _ _ _)

theorem wellFormed_internFiles (directories : Array String) (files : List File)
    (h : t.WellFormed) :
    (internFiles directories files t).2.WellFormed ∧
      Named (internFiles directories files t).1 (internFiles directories files t).2 := by
  refine internFiles_induction (P := fun r => r.2.WellFormed ∧ Named r.1 r.2) directories files
    ⟨h, fun source mem => absurd mem (Array.not_mem_empty source)⟩ ?_
  rintro sources t directory name ⟨h, named⟩
  have grows : Extends (fun _ => Gains) t (t.internFile directory name).2 :=
    .internFile (fun _ => .same) t directory name
  refine ⟨h.intern _, fun source mem => ?_⟩
  rcases Array.mem_push.1 mem with old | rfl
  · exact Nat.lt_of_lt_of_le (named source old) grows.sources_size_le
  · exact Symbol.Table.intern_lt_size t _

/-! ## Rows -/

namespace Row

/-- The rows that are there make no difference to those that come. -/
theorem foldl_step (h : Header) (base : UInt64) (rows : List Row) (r : Row) (marks : Marks)
    (instructions : List Instruction) :
    instructions.foldl (Machine.step h base) ⟨rows, r, marks⟩ =
      let m := instructions.foldl (Machine.step h base) ⟨[], r, marks⟩
      ⟨m.rows ++ rows, m.registers, m.marks⟩ := by
  induction instructions generalizing rows r marks with
  | nil => rfl
  | cons i rest ih =>
    let m := Machine.step h base ⟨[], r, marks⟩ i
    have first : Machine.step h base ⟨rows, r, marks⟩ i =
        ⟨m.rows ++ rows, m.registers, m.marks⟩ := by
      unfold m Machine.step
      split <;> rfl
    rw [List.foldl_cons, List.foldl_cons, first, ih, ih m.rows m.registers m.marks]
    simp

end Row

theorem attach_of_none {row : Row} (absent : sourceOf? sources row.file = none)
    (r : Nat × Symbol.Table) : attach sources r row = r := by
  unfold attach
  rw [absent]

theorem attach_of_source {row : Row} {source : SourceId}
    (found : sourceOf? sources row.file = some source) (r : Nat × Symbol.Table) :
    attach sources r row =
      let added := r.2.addLine source row.line row.address
      (if added.1 then r.1 + 1 else r.1, added.2) := by
  unfold attach
  rw [found]
  dsimp only
  split <;> rename_i added <;> rw [added] <;> rfl

theorem attach_cases (sources : Array SourceId) (n : Nat) (t : Symbol.Table) (row : Row) :
    (attach sources (n, t) row).2 = t ∨ ∃ source ∈ sources,
      (attach sources (n, t) row).2 = (t.addLine source row.line row.address).2 := by
  unfold attach
  split
  · exact .inl rfl
  · rename_i source found
    have mem : source ∈ sources := by
      unfold sourceOf? at found
      split at found
      · cases found
      · exact Array.mem_of_getElem? found
    refine .inr ⟨source, mem, ?_⟩
    dsimp only
    split <;> rename_i added <;> rw [added]

theorem gains_attach (sources : Array SourceId) (n : Nat) (t : Symbol.Table) (row : Row) :
    Extends (fun _ => Gains) t (attach sources (n, t) row).2 := by
  rcases attach_cases sources n t row with same | ⟨source, -, added⟩
  · rw [same]
    exact .refl (fun _ => .same) t
  · rw [added]
    exact t.gains_addLine source row.line row.address

theorem wellFormed_attach {n : Nat} (h : t.WellFormed) (named : Named sources t) (row : Row) :
    (attach sources (n, t) row).2.WellFormed ∧ Named sources (attach sources (n, t) row).2 := by
  have grows := gains_attach sources n t row
  refine ⟨?_, fun source mem => Nat.lt_of_lt_of_le (named source mem) grows.sources_size_le⟩
  rcases attach_cases sources n t row with same | ⟨source, mem, added⟩
  · rw [same]
    exact h
  · rw [added]
    exact h.addLine (named source mem) row.line row.address

/-! ## Programs -/

theorem gains_foldl_attach (sources : Array SourceId) (rows : List Row) (r : Nat × Symbol.Table) :
    Extends (fun _ => Gains) r.2 (rows.foldl (attach sources) r).2 :=
  List.foldlRecOn (motive := fun u : Nat × Symbol.Table =>
    Extends (fun _ => Gains) r.2 u.2) rows _ (.refl (fun _ => .same) r.2)
      fun u sofar row _ => sofar.trans (fun _ _ _ _ => .trans) (gains_attach sources u.1 u.2 row)

theorem gains_apply (directories : Array String) (files : List File) (rows : List Row)
    (t : Symbol.Table) : Extends (fun _ => Gains) t (apply directories files rows t).2 :=
  (gains_internFiles directories files t).trans (fun _ _ _ _ => .trans)
    (gains_foldl_attach (internFiles directories files t).1 rows
      (0, (internFiles directories files t).2))

theorem wellFormed_apply (directories : Array String) (files : List File) (rows : List Row)
    (h : t.WellFormed) : (apply directories files rows t).2.WellFormed := by
  have all : (apply directories files rows t).2.WellFormed ∧
      Named (internFiles directories files t).1 (apply directories files rows t).2 :=
    List.foldlRecOn (motive := fun r : Nat × Symbol.Table =>
        r.2.WellFormed ∧ Named (internFiles directories files t).1 r.2) rows _
      (wellFormed_internFiles directories files h) fun (_, _) sofar row _ =>
        wellFormed_attach sofar.1 sofar.2 row
  exact all.1

theorem gains_run (s : Section) (offset : Nat) (compDir : Option String) (addressSize : UInt8)
    (base : UInt64) (t : Symbol.Table) :
    Extends (fun _ => Gains) t (run s offset compDir addressSize base t).2 := by
  obtain ⟨directories, files, rows, eq⟩ := exists_table s offset compDir addressSize base t
  rw [eq]
  exact gains_apply directories files rows t

theorem wellFormed_run (s : Section) (offset : Nat) (compDir : Option String)
    (addressSize : UInt8) (base : UInt64) (h : t.WellFormed) :
    (run s offset compDir addressSize base t).2.WellFormed := by
  obtain ⟨directories, files, rows, eq⟩ := exists_table s offset compDir addressSize base t
  rw [eq]
  exact wellFormed_apply directories files rows h

end Line
end Dwarf2
