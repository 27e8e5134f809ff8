/-
A unit of a module that lies elsewhere.

What a unit is read from knows nothing of the base, so the unit is decoded or fails just as it
was, and builds the same symbols at the addresses moved up.
-/
import Dwarf2.Proofs.Build.Relocation.Unit
import Dwarf2.Proofs.CompilationUnit
import Dwarf2.Proofs.CompilationUnit.Table
import Dwarf2.Proofs.Line.Relocation

namespace Dwarf2

namespace Build

variable {d : UInt64} {src : Source} {s s' : State} {root : Root}

theorem lineProgram_of_buildUnit (built : (buildUnit src).run s = (.ok root, s')) :
    root.lineProgram = src.tree.root.unsigned? src.view .lineProgram := by
  by_cases tag : src.tree.root.tag = .compileUnit
  · unfold buildUnit at built
    dsimp only at built
    rw [if_neg (Decidable.not_not.2 tag)] at built
    cases built
    rfl
  · rw [run_buildUnit_of_ne tag] at built
    cases built

end Build

namespace CompilationUnit

open Dwarf2.Symbol.Table (Relocated Retains)

variable {d : UInt64} {sections : Sections} {image : Image} {h : Header}

/-- The line number program that a unit asks for. -/
def program? (sections : Sections) (h : Header) : Option Line.Program := do
  let abbreviations ← (readAbbreviations sections h).toOption
  let tree ← (readTree sections h abbreviations).toOption
  let offset ← tree.root.unsigned? (viewOf sections h) .lineProgram
  Line.program? ⟨.lines, sections.order, sections.lines⟩ offset.toNat h.addressSize

theorem program?_eq {abbreviations : Abbreviation.Table} {tree : Entry.Tree} {offset : UInt64}
    (read : readAbbreviations sections h = .ok abbreviations)
    (read' : readTree sections h abbreviations = .ok tree)
    (asked : tree.root.unsigned? (viewOf sections h) .lineProgram = some offset) :
    program? sections h =
      Line.program? ⟨.lines, sections.order, sections.lines⟩ offset.toNat h.addressSize := by
  rw [program?, read]
  change (readTree sections h abbreviations).toOption.bind _ = _
  rw [read']
  change (tree.root.unsigned? (viewOf sections h) .lineProgram).bind _ = _
  rw [asked]
  rfl

/-- The sessions are the same but for the addresses of the symbols. -/
structure Moved (d : UInt64) (session session' : Session) : Prop where
  symbols : Relocated d session.symbols session'.symbols
  indexed : session.symbols.Indexed
  names : session'.names = session.names

theorem Adds.retains {session session' : Session} (adds : Adds session session') :
    session.symbols.Retains session'.symbols :=
  .of_extends (adds.grows.imp fun _ _ _ _ gains => gains.develops)

theorem hasRoom_attachLines {t : Symbol.Table} (room : t.HasRoom d) (root : Build.Root) :
    (attachLines sections image h root t).HasRoom d := by
  unfold attachLines
  split
  · exact room
  · split
    · exact room
    · exact Line.hasRoom_run room _ _ _ _ _

theorem attachLines_relocate {t u : Symbol.Table} (relocated : Relocated d t u)
    (indexed : t.Indexed) (room : t.HasRoom d) (root : Build.Root)
    (movable : ∀ offset p, root.lineProgram = some offset →
      Line.program? ⟨.lines, sections.order, sections.lines⟩ offset.toNat h.addressSize = some p →
        p.Movable d image.base) :
    Relocated d (attachLines sections image h root t)
        (attachLines sections (image.relocate d) h root u) ∧
      (attachLines sections image h root t).Indexed := by
  unfold attachLines
  split
  · exact ⟨relocated, indexed⟩
  · rename_i offset asked
    split
    · exact ⟨relocated, indexed⟩
    · have moved := Line.Moved.run relocated indexed room
        (fun p there => movable offset p asked there) root.compDir
      exact ⟨moved.symbols, moved.indexed⟩

theorem source_relocate (d : UInt64) (sections : Sections) (image : Image) (h : Header) :
    source sections (image.relocate d) h =
      (source sections image h).map (Build.Source.relocate d) := by
  unfold source
  split
  · rfl
  cases readAbbreviations sections h with
  | error e => rfl
  | ok abbreviations =>
    cases read : readTree sections h abbreviations with
    | error e => simp [bind, Except.bind, read, Except.map]
    | ok tree =>
      simp [bind, Except.bind, read, Except.map, pure, Except.pure, Build.Source.relocate]

section Built

variable {src : Build.Source} {session : Session} {s : Build.State}

theorem decode_of_error (got : source sections image h = .ok src) {e : Error}
    (built : (Build.buildUnit src).run { symbols := session.symbols, names := session.names } =
      (.error e, s)) :
    decode sections image h session = (.error e, { symbols := s.symbols, names := s.names }) := by
  rw [decode, got]
  dsimp only
  rw [built]

theorem decode_of_root (got : source sections image h = .ok src) {root : Build.Root}
    (built : (Build.buildUnit src).run { symbols := session.symbols, names := session.names } =
      (.ok root, s)) :
    decode sections image h session =
      (.ok (), { symbols := attachLines sections image h root s.symbols, names := s.names }) := by
  rw [decode, got]
  dsimp only
  rw [built]

end Built

theorem decode_relocate {session session' : Session} (thunks : image.HasRoom d)
    (moved : Moved d session session')
    (room : (decode sections image h session).2.symbols.HasRoom d)
    (movable : (decode sections image h session).1.isOk →
      ∀ p, program? sections h = some p → p.Movable d image.base) :
    (decode sections (image.relocate d) h session').1 = (decode sections image h session).1 ∧
      Moved d (decode sections image h session).2
        (decode sections (image.relocate d) h session').2 := by
  match got : source sections image h with
  | .error e =>
    have got' : source sections (image.relocate d) h = .error e := by
      rw [source_relocate, got]
      rfl
    unfold decode
    rw [got, got']
    exact ⟨rfl, moved⟩
  | .ok src =>
    obtain ⟨abbreviations, tree, read, read', is⟩ := exists_of_source got
    have got' : source sections (image.relocate d) h = .ok (src.relocate d) := by
      rw [source_relocate, got]
      rfl
    have start : Build.Moved d { symbols := session.symbols, names := session.names }
        { symbols := session'.symbols, names := session'.names } :=
      ⟨moved.symbols, moved.indexed, moved.names, rfl, rfl, rfl⟩
    have thunks : src.image.HasRoom d := is ▸ thunks
    have builds := (Build.Relocates.buildUnit thunks).moves _ _ start
    rcases built' : (Build.buildUnit (src.relocate d)).run
      { symbols := session'.symbols, names := session'.names } with ⟨r', s'⟩
    match built : (Build.buildUnit src).run
        { symbols := session.symbols, names := session.names } with
    | (.error e, s) =>
      rw [decode_of_error got built] at room ⊢
      rw [built, built'] at builds
      obtain ⟨rfl, moved⟩ := builds room
      rw [decode_of_error got' built']
      exact ⟨rfl, moved.symbols, moved.indexed, moved.names⟩
    | (.ok root, s) =>
      rw [decode_of_root got built] at room movable ⊢
      rw [built, built'] at builds
      have room : s.symbols.HasRoom d := room.of_retains
        (adds_attachLines sections image h root s.symbols s.names).retains
      obtain ⟨rfl, moved⟩ := builds room
      rw [decode_of_root got' built']
      have asks (offset : UInt64) (p : Line.Program) (asked : root.lineProgram = some offset)
          (there : Line.program? ⟨.lines, sections.order, sections.lines⟩ offset.toNat
            h.addressSize = some p) : p.Movable d image.base := by
        rw [Build.lineProgram_of_buildUnit built, is] at asked
        exact movable rfl p ((program?_eq read read' asked).trans there)
      obtain ⟨symbols, indexed⟩ :=
        attachLines_relocate moved.symbols moved.indexed room root asks
      exact ⟨rfl, symbols, indexed, moved.names⟩

end CompilationUnit
end Dwarf2
