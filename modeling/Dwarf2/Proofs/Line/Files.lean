/-
The paths under which a line number program names its files.

What a run adds to the sources are the paths of its files, `mem_sources_internFiles`.  Each is the name of
the file joined to the include directory that the file is in, and that is joined to the directory
of the unit.
-/
import Dwarf2.Proofs.Checked.Line.Program
import Dwarf2.Proofs.Line.Prologue
import Dwarf2.Proofs.Line.Repetition
import Dwarf2.Proofs.Path
import Dwarf2.Proofs.Symbol.Source

namespace Dwarf2
namespace Line

variable {s : Section} {offset : Nat} {compDir : Option String} {included : List String}
  {t : Symbol.Table}

/-! ## Sources -/

theorem mem_sources_internFiles (directories : Array String) (files : List File)
    (t : Symbol.Table) (path : String) :
    path ∈ (internFiles directories files t).2.sources ↔ path ∈ t.sources ∨
      ∃ file ∈ files, Path.ofFile directories[file.directory.toNat]? file.name = path := by
  rw [internFiles_eq]
  generalize (#[] : Array SourceId) = sources
  induction files generalizing sources t with
  | nil => simp
  | cons file rest ih =>
    rw [List.foldl_cons, ih]
    show path ∈ (t.intern _).2.sources ∨ _ ↔ _
    rw [Symbol.Table.mem_sources_intern]
    simp only [List.exists_mem_cons_iff, eq_comm (a := path)]
    tauto

theorem sources_foldl_attach (sources : Array SourceId) (rows : List Row)
    (r : Nat × Symbol.Table) : (rows.foldl (attach sources) r).2.sources = r.2.sources := by
  refine List.foldlRecOn (motive := fun u : Nat × Symbol.Table => u.2.sources = r.2.sources) rows _
    rfl fun u sofar row _ => ?_
  rcases attach_cases sources u.1 u.2 row with same | ⟨source, -, added⟩
  · rw [same, sofar]
  · rw [added, ← sofar]
    exact congrArg (·.paths) (u.2.interned_perform (.addLine source row.line row.address))

/-- The include directories and the files of the program at an offset, as far as they can be
read. -/
def tables (s : Section) (offset : Nat) : List String × List File :=
  let directories : Read (Header × List String) := do
    let h ← Header.read s
    return (h, ← readDirectories s)
  match directories.run offset with
  | .error _ => ([], [])
  | .ok ((_, included), next) => (included, (collectFiles s next).1)

theorem sources_run (s : Section) (offset : Nat) (compDir : Option String) (addressSize : UInt8)
    (base : UInt64) (t : Symbol.Table) :
    (run s offset compDir addressSize base t).2.sources =
      (internFiles (directoriesOf compDir (tables s offset).1) (tables s offset).2 t).2.sources := by
  unfold run tables
  split
  · rename_i outside
    dsimp only
    split
    · rfl
    · rename_i read
      obtain ⟨_, _, header, -⟩ := Read.run_bind_eq_ok.1 read
      exact absurd (Header.lt_size_of_read header) (Nat.not_lt.2 outside)
  dsimp only
  generalize Read.run _ offset = read
  rcases read with e | ⟨⟨h, included⟩, next⟩
  · rfl
  · dsimp only
    split
    · rfl
    · exact sources_foldl_attach ..

/-! ## Paths -/

/-- The include directory of the file.  A file may be in none that is there, or where the unit was
compiled. -/
def File.included? (file : File) (included : List String) : Option String :=
  if file.directory = 0 then none else included[file.directory.toNat - 1]?

def File.path (file : File) (compDir : Option String) (included : List String) : String :=
  Path.ofFile (directoriesOf compDir included)[file.directory.toNat]? file.name

theorem getElem?_directoriesOf (compDir : Option String) (included : List String) (file : File) :
    (directoriesOf compDir included)[file.directory.toNat]? =
      if file.directory = 0 then some (compDir.getD ".")
      else (file.included? included).map (Path.ofDirectory compDir) := by
  rw [directoriesOf, List.getElem?_toArray, File.included?]
  split
  · rename_i zero
    rw [zero]
    rfl
  · rename_i nonzero
    have pos : file.directory.toNat ≠ 0 := fun h => nonzero (UInt64.toNat_inj.1 h)
    obtain ⟨n, succ⟩ := Nat.exists_eq_succ_of_ne_zero pos
    rw [succ, Nat.succ_eq_add_one, List.getElem?_cons_succ, List.getElem?_map,
      Nat.add_sub_cancel]

theorem isAbsolute_path (file : File) (compDir : Option String) (included : List String) :
    Path.isAbsolute (file.path compDir included) = true ↔
      Path.isAbsolute file.name = true ∨
      (∃ directory, file.included? included = some directory ∧ Path.isAbsolute directory = true) ∨
      (∃ path, compDir = some path ∧ Path.isAbsolute path = true ∧
        (file.directory = 0 ∨ ∃ directory, file.included? included = some directory)) ∨
      compDir = some "" ∧ ∃ directory, file.included? included = some directory := by
  rw [File.path, Path.isAbsolute_ofFile, getElem?_directoriesOf]
  by_cases zero : file.directory = 0
  · have none : file.included? included = none := if_pos zero
    cases compDir with
    | none => simp [zero, none, show Path.isAbsolute "." = false from rfl]
    | some compDir => simp [zero, none]
  · rw [if_neg zero]
    cases file.included? included with
    | none => simp [zero]
    | some directory =>
      rw [Option.map_some, Option.any_some, Path.isAbsolute_ofDirectory]
      cases compDir with
      | none => simp
      | some compDir =>
        simp only [Option.any_some, Bool.or_eq_true, String.isEmpty_iff, Option.some.injEq,
          exists_eq_left', exists_eq', zero, false_or, and_true]

/-- A run adds to the sources the paths of its files and no others.  The path of a file is absolute
if its name is, or its include directory, or the directory of the unit that either is relative to;
and if it has an include directory and the directory of the unit is there but empty. -/
theorem absolute_run (s : Section) (offset : Nat) (compDir : Option String) (addressSize : UInt8)
    (base : UInt64) (t : Symbol.Table) :
    let (included, files) := tables s offset
    (∀ path, path ∈ (run s offset compDir addressSize base t).2.sources ↔
      path ∈ t.sources ∨ ∃ file ∈ files, file.path compDir included = path) ∧
    ∀ file ∈ files, Path.isAbsolute (file.path compDir included) = true ↔
      Path.isAbsolute file.name = true ∨
      (∃ directory, file.included? included = some directory ∧ Path.isAbsolute directory = true) ∨
      (∃ path, compDir = some path ∧ Path.isAbsolute path = true ∧
        (file.directory = 0 ∨ ∃ directory, file.included? included = some directory)) ∨
      compDir = some "" ∧ ∃ directory, file.included? included = some directory := by
  refine ⟨fun path => ?_, fun file _ => isAbsolute_path file compDir _⟩
  rw [sources_run]
  exact mem_sources_internFiles _ _ t path

namespace Included

/-- A prologue with the directory `inc` and the file `a.c` in it. -/
def bytes : Bytes :=
  #[33, 0, 0, 0, 2, 0, 27, 0, 0, 0, 1, 1, 0xfb, 14, 10, 0, 1, 1, 1, 1, 0, 0, 0, 1,
    105, 110, 99, 0, 0, 97, 46, 99, 0, 1, 0, 0, 0]

def checkedDirectories : Checked.Reader (Header × List String) := do
  let s : Section := ⟨.lines, .little, bytes⟩
  let h ← Checked.Line.readHeader s
  return (h, ← Checked.Line.readDirectories s)

theorem small : Checked.Addressable ⟨.lines, .little, bytes⟩ :=
  (by decide : bytes.size < 2 ^ 64)

theorem tables_bytes : tables ⟨.lines, .little, bytes⟩ 0 = (["inc"], [⟨"a.c", 1⟩]) := by
  have follows : checkedDirectories.Follows (do
      let h ← Header.read ⟨.lines, .little, bytes⟩
      return (h, ← readDirectories ⟨.lines, .little, bytes⟩)) 0 :=
    .bind (Checked.Line.follows_readHeader small 0) fun _ _ _ =>
      .bind (Checked.Line.follows_readDirectories small _) fun _ _ _ => .pure _ _
  have directories : ∃ h, checkedDirectories 0 = .ok (.ok ((h, ["inc"]), 29)) :=
    ⟨_, by with_unfolding_all rfl⟩
  obtain ⟨h, directories⟩ := directories
  have files : Checked.Line.collectFiles ⟨.lines, .little, bytes⟩ 29 =
      .ok ([⟨"a.c", 1⟩], .ok ()) := by with_unfolding_all rfl
  unfold tables
  dsimp only
  rw [Except.ok.inj (follows.symm.trans directories)]
  dsimp only
  rw [Except.ok.inj ((Checked.Line.collectFiles_eq small 29).symm.trans files)]

end Included

/-- The path is absolute although neither the file nor a directory is. -/
theorem absolute_invented :
    tables ⟨.lines, .little, Included.bytes⟩ 0 = (["inc"], [⟨"a.c", 1⟩]) ∧
      (run ⟨.lines, .little, Included.bytes⟩ 0 (some "") 4 0 {}).2.sources = #["/inc/a.c"] ∧
      Path.isAbsolute "/inc/a.c" = true ∧ Path.isAbsolute "a.c" = false ∧
      Path.isAbsolute "inc" = false ∧ Path.isAbsolute "" = false := by
  have evaluated : (run ⟨.lines, .little, Included.bytes⟩ 0 (some "") 4 0 {}).2.sources =
      #["/inc/a.c"] := by
    have run := Checked.Line.run_eq Included.small 0 (some "") 4 0 Symbol.Table.WellFormed.empty
    have checked : (Checked.Line.run ⟨.lines, .little, Included.bytes⟩ 0 (some "") 4 0 {}).map
        (·.2.sources) = .ok #["/inc/a.c"] := by with_unfolding_all rfl
    rw [run] at checked
    exact Except.ok.inj checked
  exact ⟨Included.tables_bytes, evaluated, by decide, by decide, by decide, by decide⟩

end Line
end Dwarf2
