/-
Running a line number program again.

What a program does does not depend on the table that it is run on, so a second run names the same
files and attaches the same rows.  By then the files have their places, and every row is where it
can go: `run_again`.  What a run leaves besides its files is no more than the facts that it has
counted.
-/
import Dwarf2.Proofs.Line.Prologue
import Dwarf2.Proofs.Session.Reachable
import Dwarf2.Proofs.Session.Relocation
import Dwarf2.Proofs.Symbol.Repetition

namespace Dwarf2
namespace Line

variable {t u : Symbol.Table} {sources : Array SourceId}

/-! ## Files -/

def nameFile (directories : Array String) (named : Array SourceId × Symbol.Table) (file : File) :
    Array SourceId × Symbol.Table :=
  let (source, t) := named.2.internFile directories[file.directory.toNat]? file.name
  (named.1.push source, t)

theorem internFiles_eq (directories : Array String) (files : List File) (t : Symbol.Table) :
    internFiles directories files t = files.foldl (nameFile directories) (#[], t) :=
  rfl

theorem sources_foldl_nameFile (directories : Array String) (files : List File)
    (named : Array SourceId × Symbol.Table) :
    named.2.sources.toList <+:
      (files.foldl (nameFile directories) named).2.sources.toList := by
  refine List.foldlRecOn (motive := fun r : Array SourceId × Symbol.Table =>
    named.2.sources.toList <+: r.2.sources.toList) files _ (List.prefix_refl _) ?_
  intro r sofar file _
  exact sofar.trans (Symbol.Table.Extends.internFile (R := fun _ => Symbol.Gains)
    (fun _ => .same) r.2 _ file.name).sources

theorem foldl_nameFile_again (directories : Array String) (files : List File)
    (grows : (files.foldl (nameFile directories) (sources, t)).2.sources.toList <+:
      u.sources.toList) :
    files.foldl (nameFile directories) (sources, u) =
      ((files.foldl (nameFile directories) (sources, t)).1, u) := by
  induction files generalizing sources t with
  | nil => rfl
  | cons file rest ih =>
    rw [List.foldl_cons] at grows
    have kept := (sources_foldl_nameFile directories rest _).trans grows
    have again : nameFile directories (sources, u) file =
        ((nameFile directories (sources, t) file).1, u) := by
      unfold nameFile Symbol.Table.internFile at kept ⊢
      rw [Symbol.Table.intern_again _ kept]
    rw [List.foldl_cons, List.foldl_cons, again]
    exact ih grows

/-- Files that have been named are named alike from then on. -/
theorem internFiles_again (directories : Array String) (files : List File)
    (grows : (internFiles directories files t).2.sources.toList <+: u.sources.toList) :
    internFiles directories files u = ((internFiles directories files t).1, u) := by
  rw [internFiles_eq] at grows ⊢
  exact foldl_nameFile_again directories files grows

theorem symbols_internFiles (directories : Array String) (files : List File) (t : Symbol.Table) :
    (internFiles directories files t).2.symbols = t.symbols := by
  obtain ⟨sources, eq⟩ := exists_interned directories files t
  rw [eq]

/-! ## Rows -/

/-- The row has been attached, or there is nothing to attach it to. -/
def Done (sources : Array SourceId) (t : Symbol.Table) (row : Row) : Prop :=
  ∀ source, sourceOf? sources row.file = some source → t.Settled source row.line row.address

theorem Done.attach_eq {row : Row} (done : Done sources t row) (n : Nat) :
    attach sources (n, t) row = (n, t) := by
  cases found : sourceOf? sources row.file with
  | none => exact attach_of_none found _
  | some source =>
    rw [attach_of_source found]
    dsimp only
    rw [done source found]
    rfl

theorem ordered_attach (h : t.Ordered) (n : Nat) (row : Row) :
    (attach sources (n, t) row).2.Ordered := by
  cases found : sourceOf? sources row.file with
  | none => rwa [attach_of_none found]
  | some source =>
    rw [attach_of_source found]
    exact h.addLine source row.line row.address

theorem done_attach (h : t.Ordered) (n : Nat) (row : Row) :
    Done sources (attach sources (n, t) row).2 row := by
  intro source found
  rw [attach_of_source found]
  exact Symbol.Table.settled_addLine h source row.line row.address

theorem Done.attach {row : Row} (done : Done sources t row) (h : t.Ordered) (n : Nat)
    (other : Row) : Done sources (attach sources (n, t) other).2 row := by
  intro source found
  cases found' : sourceOf? sources other.file with
  | none =>
    rw [attach_of_none found']
    exact done source found
  | some source' =>
    rw [attach_of_source found']
    exact (done source found).addLine h source' other.line other.address

/-- All rows are done when they have been attached one after another. -/
theorem done_foldl (sources : Array SourceId) (h : t.Ordered) (n : Nat) (rows : List Row) :
    ∀ row ∈ rows, Done sources (rows.foldl (attach sources) (n, t)).2 row := by
  induction rows using List.reverseRecOn with
  | nil => exact nofun
  | append_singleton rows last ih =>
    have ordered : (rows.foldl (attach sources) (n, t)).2.Ordered :=
      List.foldlRecOn (motive := fun r : Nat × Symbol.Table => r.2.Ordered) rows _ h
        fun r sofar row _ => ordered_attach sofar r.1 row
    intro row mem
    rw [List.foldl_append]
    rcases List.mem_append.1 mem with mem | mem
    · exact (ih row mem).attach ordered _ last
    · rw [List.mem_singleton.1 mem]
      exact done_attach ordered _ last

theorem foldl_attach_of_done {rows : List Row} (done : ∀ row ∈ rows, Done sources t row) (n : Nat) :
    rows.foldl (attach sources) (n, t) = (n, t) :=
  List.foldlRecOn (motive := fun r => r = (n, t)) rows _ rfl fun _ same row mem => by
    rw [same, (done row mem).attach_eq]

/-- A row is counted if it is one fact more. -/
theorem factCount_attach (sources : Array SourceId) (n : Nat) (t : Symbol.Table) (row : Row) :
    (attach sources (n, t) row).2.factCount + n =
      t.factCount + (attach sources (n, t) row).1 := by
  cases found : sourceOf? sources row.file with
  | none => rw [attach_of_none found]
  | some source =>
    rw [attach_of_source found]
    rcases Symbol.Table.addLine_eq_or_inserts t source row.line row.address with
      same | ⟨u, eq, inserts⟩
    · rw [same]
      rfl
    · dsimp only
      rw [eq, inserts.factCount, if_pos rfl]
      omega

theorem factCount_foldl (sources : Array SourceId) (rows : List Row) (t : Symbol.Table) :
    (rows.foldl (attach sources) (0, t)).2.factCount =
      t.factCount + (rows.foldl (attach sources) (0, t)).1 := by
  refine List.foldlRecOn (motive := fun r : Nat × Symbol.Table =>
    r.2.factCount = t.factCount + r.1) rows _ rfl ?_
  rintro ⟨n, u⟩ sofar row _
  have one := factCount_attach sources n u row
  dsimp only at sofar
  omega

/-! ## Programs -/

theorem sources_apply (directories : Array String) (files : List File) (rows : List Row)
    (t : Symbol.Table) :
    (internFiles directories files t).2.sources.toList <+:
      (apply directories files rows t).2.sources.toList := by
  refine List.foldlRecOn (motive := fun r : Nat × Symbol.Table =>
    (internFiles directories files t).2.sources.toList <+: r.2.sources.toList) rows _
    (List.prefix_refl _) ?_
  intro r sofar row _
  exact sofar.trans (gains_attach _ r.1 r.2 row).sources

theorem ordered_internFiles (directories : Array String) (files : List File) (h : t.Ordered) :
    (internFiles directories files t).2.Ordered := by
  intro id f there
  refine h id f ?_
  rwa [Symbol.Table.get?, symbols_internFiles] at there

theorem apply_again (h : t.Ordered) (directories : Array String) (files : List File)
    (rows : List Row) :
    apply directories files rows (apply directories files rows t).2 =
      (0, (apply directories files rows t).2) := by
  have named := internFiles_again directories files (sources_apply directories files rows t)
  have done := done_foldl (internFiles directories files t).1
    (ordered_internFiles directories files h) 0 rows
  rw [apply, named]
  exact foldl_attach_of_done done 0

theorem factCount_apply (directories : Array String) (files : List File) (rows : List Row)
    (t : Symbol.Table) :
    (apply directories files rows t).2.factCount =
      t.factCount + (apply directories files rows t).1 := by
  have named : (internFiles directories files t).2.factCount = t.factCount := by
    unfold Symbol.Table.factCount
    rw [symbols_internFiles]
  rw [← named]
  exact factCount_foldl _ rows _

/-- A second run of a program attaches nothing, ends as the first did, and leaves the table as it
found it.  What a run attaches is what the functions have more than before, taken together. -/
theorem run_again (reachable : Session.Reachable t) (s : Section) (offset : Nat)
    (compDir : Option String) (addressSize : UInt8) (base : UInt64) :
    let (r, u) := run s offset compDir addressSize base t
    run s offset compDir addressSize base u = (r.map fun _ => 0, u) ∧
      t.Extends (fun _ => Symbol.Gains) u ∧ ∀ n, r = .ok n → u.factCount = t.factCount + n := by
  have gains := gains_run s offset compDir addressSize base t
  obtain ⟨directories, files, ending, eq⟩ := exists_apply s offset compDir addressSize
  have again := apply_again reachable.wellFormed.ordered directories files
    (rows s offset addressSize base)
  have count := factCount_apply directories files (rows s offset addressSize base) t
  rw [eq] at gains ⊢
  dsimp only at gains ⊢
  refine ⟨?_, gains, fun n told => ?_⟩
  · rw [eq, again]
    cases ending <;> rfl
  · cases ending with
    | error => cases told
    | ok =>
      have told : (apply directories files (rows s offset addressSize base) t).1 = n :=
        Except.ok.inj told
      rw [count, told]

/-- The rows of the program lie in the first function of the unit. -/
theorem run_again_thunked :
    let t := (Session.Thunked.built { symbols := {}, names := {} }).2.symbols
    let (r, u) := run ⟨.lines, .little, Compressed.bytes⟩ 0 none 4 0 t
    t.symbols.toList.map Symbol.addresses = [[], [], [0x10]] ∧
      run ⟨.lines, .little, Compressed.bytes⟩ 0 none 4 0 u = (r.map fun _ => 0, u) ∧
      t.Extends (fun _ => Symbol.Gains) u ∧ ∀ n, r = .ok n → u.factCount = t.factCount + n :=
  ⟨Session.Thunked.addresses_built, run_again (.build .empty Session.Thunked.source {})
    ⟨.lines, .little, Compressed.bytes⟩ 0 none 4 0⟩

end Line
end Dwarf2
