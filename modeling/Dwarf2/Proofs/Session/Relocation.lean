/-
Decoding a module that lies elsewhere.

The base is added to every address of the debug information and the thunks lie where the module
does.  So a module that is moved is decoded just as before, to the same symbols further up.

Mathlib is imported as a whole for the equations of the library by which `cbv` evaluates the
module of the example.
-/
import Mathlib
import Dwarf2.Proofs.Checked.Session
import Dwarf2.Proofs.CompilationUnit.Relocation
import Dwarf2.Proofs.Line.Compression

namespace Dwarf2
namespace Session

open CompilationUnit (Moved)
open Dwarf2.Symbol.Table (Relocated)

section Moving

variable {d : UInt64} {sections : Sections} {image : Image}

namespace Run

variable {offset : Nat} {session session' final final' : Session}
  {outcomes outcomes' : List Outcome}

theorem unique (run : Run sections image offset session outcomes final)
    (run' : Run sections image offset session outcomes' final') :
    outcomes' = outcomes ∧ final' = final := by
  induction run generalizing outcomes' final' with
  | outside at_end =>
    cases run' with
    | outside => exact ⟨rfl, rfl⟩
    | unreadable inside | unit inside => omega
  | unreadable inside failed =>
    cases run' with
    | outside at_end => omega
    | unreadable => exact ⟨rfl, rfl⟩
    | unit _ read => cases failed.symm.trans read
  | unit inside read _ ih =>
    cases run' with
    | outside at_end => omega
    | unreadable _ failed => cases failed.symm.trans read
    | unit _ read' behind =>
      cases read.symm.trans read'
      obtain ⟨rfl, rfl⟩ := ih behind
      exact ⟨rfl, rfl⟩

theorem relocate (run : Run sections image offset session outcomes final)
    (thunks : image.HasRoom d) (room : final.symbols.HasRoom d)
    (movable : ∀ o ∈ outcomes, o.processed → ∀ h p, header? sections o.offset = some h →
      CompilationUnit.program? sections h = some p → p.Movable d image.base)
    (moved : Moved d session session') :
    ∃ final', Run sections (image.relocate d) offset session' outcomes final' ∧
      Moved d final final' := by
  induction run generalizing session' with
  | outside at_end => exact ⟨session', .outside at_end, moved⟩
  | unreadable inside failed => exact ⟨session', .unreadable inside failed, moved⟩
  | @unit offset h session final outcomes inside read behind ih =>
    have room' := room.of_retains behind.adds.retains
    obtain ⟨same, moved⟩ := CompilationUnit.decode_relocate thunks moved room' fun done p =>
      movable _ List.mem_cons_self done h p read
    obtain ⟨final', run', moved⟩ :=
      ih room (fun o mem => movable o (List.mem_cons_of_mem _ mem)) moved
    refine ⟨final', ?_, moved⟩
    rw [← same]
    exact .unit inside read run'

end Run

/-- A module that lies further up by so much, with its thunks, has the same units decoded to the
same symbols, further up by so much.  So the same functions are left out for the thunks, and all
lines are attached to the same functions at the same offsets.  No address may leave the range of
a word by that, and no sequence of a line number program may have a row before it sets its
address. -/
theorem relocated_decode {names : NameSupply} (thunks : image.HasRoom d)
    (symbols : (decode sections image { names }).2.symbols.HasRoom d)
    (lines : ∀ o ∈ (decode sections image { names }).1, o.processed → ∀ h p,
      header? sections o.offset = some h → CompilationUnit.program? sections h = some p →
        p.Movable d image.base) :
    let (outcomes, session) := decode sections image { names }
    let (outcomes', session') := decode sections (image.relocate d) { names }
    outcomes' = outcomes ∧ Relocated d session.symbols session'.symbols ∧
      session'.names = session.names := by
  obtain ⟨outcomes, final, run, eq⟩ := run_decode sections image { names }
  obtain ⟨outcomes', final', run', eq'⟩ := run_decode sections (image.relocate d) { names }
  rw [eq] at symbols lines ⊢
  rw [eq']
  obtain ⟨_, run'', moved⟩ := run.relocate thunks symbols lines ⟨.empty d, .empty, rfl⟩
  obtain ⟨rfl, rfl⟩ := run''.unique run'
  obtain ⟨same, addresses, sources, detached, -⟩ := moved.symbols
  exact ⟨rfl, ⟨same, addresses, sources, detached, rfl⟩, moved.names⟩

end Moving

namespace Thunked

/-- A unit with two functions and with lines for the first of them. -/
def sections : Sections where
  order := .little
  information := #[31, 0, 0, 0, 2, 0, 0, 0, 0, 0, 4, 1, 0, 0, 0, 0, 2, 0x10, 0, 0, 0, 0x20, 0, 0, 0,
    2, 0x40, 0, 0, 0, 0x50, 0, 0, 0, 0]
  abbreviations := #[1, 0x11, 1, 0x10, 0x06, 0, 0, 2, 0x2e, 0, 0x11, 0x01, 0x12, 0x01, 0, 0, 0]
  strings := #[]
  lines := Line.Compressed.bytes

/-- The second function lies in a thunk. -/
def image : Image :=
  ⟨0, [⟨"jumps", 0x40, 0x60⟩]⟩

def header : CompilationUnit.Header :=
  ⟨0, 31, 2, 0, 4⟩

def view : UnitView :=
  CompilationUnit.viewOf sections header

def unitShape : Abbreviation :=
  ⟨1, .compileUnit, true, [⟨.lineProgram, .data4⟩]⟩

def functionShape : Abbreviation :=
  ⟨2, .subprogram, false, [⟨.lowPc, .addr⟩, ⟨.highPc, .addr⟩]⟩

def abbreviations : Abbreviation.Table :=
  .ofDeclarations [unitShape, functionShape]

def root : Entry :=
  ⟨11, unitShape, [12], [⟨16, functionShape, [17, 21], []⟩, ⟨25, functionShape, [26, 30], []⟩]⟩

def source : Build.Source :=
  ⟨view, .ofRoot root (by decide), image⟩

theorem fits : Checked.Fits sections :=
  ⟨by decide, by decide, by decide, by decide⟩

theorem header?_eq : header? sections 0 = some header := by
  have evaluated : Checked.CompilationUnit.readHeader
      ⟨.information, sections.order, sections.information⟩ 0 = .ok (.ok (header, 11)) := by cbv
  exact Checked.Session.header?_of_readHeader fits evaluated

theorem readAbbreviations_eq :
    CompilationUnit.readAbbreviations sections header = .ok abbreviations := by
  have evaluated : Checked.CompilationUnit.readAbbreviations sections header =
      .ok (.ok abbreviations) := by cbv
  have checked := Checked.CompilationUnit.readAbbreviations_eq fits header
  exact Except.ok.inj (checked.symm.trans evaluated)

theorem readTree_eq : CompilationUnit.readTree sections header abbreviations = .ok source.tree := by
  have evaluated : Checked.Entry.readNode? view abbreviations 35
      (Checked.Entry.readForest view abbreviations 35 view.information.size) 11 =
        .ok (.ok (some root, 35)) := by cbv
  obtain ⟨_, read⟩ : ∃ ascending, CompilationUnit.readTree sections header abbreviations =
      .ok (.ofRoot root ascending) :=
    Checked.Entry.exists_read_of_readNode? (v := view) fits.information fits.strings evaluated
  exact read

theorem source_eq : CompilationUnit.source sections image header = .ok source := by
  rw [CompilationUnit.source_eq rfl readAbbreviations_eq, readTree_eq]
  rfl

theorem size_tree : source.tree.size = 3 := by
  simp [source, root, Entry.Tree.size, Entry.Tree.ofRoot, Entry.fold, Entry.foldAll,
    Std.HashMap.size_insert]

def built (start : Build.State) : Except Error Build.Root × Build.State :=
  (Build.buildUnit source).run start

/-- There is a compiland, and the first function behind its signature. -/
theorem addresses_built :
    let symbols := (built { symbols := {}, names := {} }).2.symbols
    symbols.symbols.toList.map Symbol.addresses = [[], [], [0x10]] := by
  unfold built Build.buildUnit Build.resolve
  rw [size_tree]
  cbv

theorem hasRoom_built : (built { symbols := {}, names := {} }).2.symbols.HasRoom 0x400000 := by
  intro id x there address mem
  have among := List.mem_map_of_mem (f := Symbol.addresses)
    (Array.mem_toList_iff.2 (Array.mem_of_getElem? there))
  simp only [addresses_built, List.mem_cons, List.not_mem_nil, or_false] at among
  rcases among with eq | eq | eq <;> rw [eq] at mem <;> cases mem
  · decide
  · contradiction

theorem decode_eq : decode sections image {} =
    let (r, session) := CompilationUnit.decode sections image header {}
    ([⟨0, r.isOk⟩], { session with symbols := { session.symbols with capabilities } }) := by
  obtain ⟨outcomes, final, run, eq⟩ := run_decode sections image {}
  have one : Run sections image 0 {} _ _ := .unit (by decide) header?_eq (.outside (by decide))
  obtain ⟨rfl, rfl⟩ := one.unique run
  exact eq

theorem hasRoom : (decode sections image {}).2.symbols.HasRoom 0x400000 := by
  have room := hasRoom_built
  obtain ⟨r, s, is⟩ : ∃ r s, built { symbols := {}, names := {} } = (r, s) := ⟨_, _, rfl⟩
  rw [is] at room
  rw [decode_eq]
  change (CompilationUnit.decode sections image header {}).2.symbols.HasRoom 0x400000
  cases r with
  | error e =>
    have decoded : CompilationUnit.decode sections image header {} = _ :=
      CompilationUnit.decode_of_error source_eq is
    rw [decoded]
    exact room
  | ok root =>
    have decoded : CompilationUnit.decode sections image header {} = _ :=
      CompilationUnit.decode_of_root source_eq is
    rw [decoded]
    exact CompilationUnit.hasRoom_attachLines room root

theorem program?_eq : CompilationUnit.program? sections header =
    some ⟨Line.Compressed.header, [.setAddress 16, .special 32, .constAddPc, .endSequence]⟩ := by
  have asked : source.tree.root.unsigned? view .lineProgram = some 0 := by cbv
  rw [CompilationUnit.program?_eq readAbbreviations_eq readTree_eq asked]
  change Line.program? ⟨.lines, .little, Line.Compressed.bytes⟩ 0 4 = _
  rw [Line.program?, Read.value, Line.Compressed.prologue]
  exact congrArg (fun l => some (Line.Program.mk _ l)) Line.Compressed.instructions_eq

theorem movable (o : Outcome) (mem : o ∈ (decode sections image {}).1)
    (h : CompilationUnit.Header) (p : Line.Program) (read : header? sections o.offset = some h)
    (there : CompilationUnit.program? sections h = some p) : p.Movable 0x400000 image.base := by
  rw [decode_eq] at mem
  cases List.mem_singleton.1 mem
  cases header?_eq.symm.trans read
  cases program?_eq.symm.trans there
  exact ⟨by decide, by decide⟩

end Thunked

/-- The module lies at zero, and then four megabytes further up. -/
theorem relocated_thunked :
    let image : Image := ⟨0x400000, [⟨"jumps", 0x400040, 0x400060⟩]⟩
    let (outcomes, session) := decode Thunked.sections Thunked.image {}
    let (outcomes', session') := decode Thunked.sections image {}
    Thunked.image.HasRoom 0x400000 ∧ session.symbols.HasRoom 0x400000 ∧
      (∀ o ∈ outcomes, o.processed → ∀ h p, header? Thunked.sections o.offset = some h →
        CompilationUnit.program? Thunked.sections h = some p →
          p.Movable 0x400000 Thunked.image.base) ∧
      outcomes' = outcomes ∧ Relocated 0x400000 session.symbols session'.symbols ∧
      session'.names = session.names := by
  have thunks : Thunked.image.HasRoom 0x400000 := by decide
  have lines := fun o mem (_ : o.processed = true) => Thunked.movable o mem
  exact ⟨thunks, Thunked.hasRoom, lines, relocated_decode thunks Thunked.hasRoom lines⟩

end Session
end Dwarf2
