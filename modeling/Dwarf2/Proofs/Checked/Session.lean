/-
Decoding a module with steps that may panic.

All that is read is read with such steps.  Builders take few: they look at attributes, open
blocks, and count the names that they make up.  The resolver has its number of steps, which
have to be enough.
-/
import Dwarf2.Proofs.Build.Calls
import Dwarf2.Proofs.Checked.Entry
import Dwarf2.Proofs.Checked.Line.Program
import Dwarf2.Proofs.Session.Table

namespace Dwarf2
namespace Checked

open Reader (Follows)

/-- The size of a section is one of a machine. -/
structure Fits (sections : Sections) : Prop where
  information : sections.information.size < 2 ^ 64
  abbreviations : sections.abbreviations.size < 2 ^ 64
  strings : sections.strings.size < 2 ^ 64
  lines : sections.lines.size < 2 ^ 64

namespace CompilationUnit

open Dwarf2.CompilationUnit (Header)

def readHeader (s : Section) : Reader Header := do
  let offset ← .position
  let length ← Section.uint32 s
  if length = 0xffffffff then
    Section.fault s (.wideFormat offset)
  else
    return {
      offset, length
      version := ← Section.uint16 s
      abbrevOffset := ← Section.uint32 s
      addressSize := ← Section.uint8 s }

def readAbbreviations (sections : Sections) (h : Header) :
    Checked (Except Error Abbreviation.Table) :=
  Abbreviation.readTable ⟨.abbreviations, sections.order, sections.abbreviations⟩
    h.abbrevOffset.toNat

def readTree (sections : Sections) (h : Header) (abbreviations : Abbreviation.Table) :
    Checked (Except Error Entry.Tree) :=
  Entry.readTree (CompilationUnit.viewOf sections h) abbreviations h.entries h.nextOffset

/-- What the symbols of a unit are built from. -/
def source (sections : Sections) (image : Image) (h : Header) :
    Checked (Except Error Build.Source) := do
  if h.version ≠ 2 then
    return .error (.unsupportedVersion h.version)
  match ← readAbbreviations sections h with
  | .error e => return .error e
  | .ok abbreviations =>
    match ← readTree sections h abbreviations with
    | .error e => return .error e
    | .ok tree => return .ok ⟨CompilationUnit.viewOf sections h, tree, image⟩

def isExhausted : Build.Event → Bool
  | .exhausted _ => true
  | _ => false

/-- Builds a unit that has been looked at.  The resolver must not run out of steps, nor the
counter of names out of numbers. -/
def buildUnit (src : Build.Source) (session : Session) :
    Checked (Except Error Build.Root × Build.State) := do
  Entry.inspect src.view src.tree.root
  let (r, s) :=
    (Build.buildUnit src).run { symbols := session.symbols, names := session.names }
  guarded (!s.journal.any isExhausted) .endless ()
  guarded (s.names.next < 2 ^ 64) .overflow ()
  return (r, s)

def attachLines (sections : Sections) (image : Image) (h : Header) (root : Build.Root)
    (symbols : Symbol.Table) : Checked Symbol.Table :=
  match root.lineProgram with
  | none => return symbols
  | some offset => do
    if sections.lines.isEmpty then
      return symbols
    let r ← Line.run ⟨.lines, sections.order, sections.lines⟩ offset.toNat root.compDir
      h.addressSize image.base symbols
    return r.2

def decode (sections : Sections) (image : Image) (h : Header) (session : Session) :
    Checked (Except Error Unit × Session) := do
  match ← source sections image h with
  | .error e => return (.error e, session)
  | .ok src =>
    match ← buildUnit src session with
    | (.error e, s) => return (.error e, { symbols := s.symbols, names := s.names })
    | (.ok root, s) =>
      let symbols ← attachLines sections image h root s.symbols
      return (.ok (), { symbols, names := s.names })

end CompilationUnit

namespace Session

open Dwarf2.Session (Outcome)

/-- Every unit takes bytes of its section, so there are no more of them than bytes. -/
def decodeFrom (sections : Sections) (image : Image) :
    (rounds offset : Nat) → List Outcome → Session → Checked (List Outcome × Session)
  | 0, _, _, _ => .error .endless
  | rounds + 1, offset, outcomes, session => do
    if offset < sections.information.size then
      match ← CompilationUnit.readHeader ⟨.information, sections.order, sections.information⟩
          offset with
      | .error _ => return (outcomes, session)
      | .ok (h, _) =>
        let (r, session) ← CompilationUnit.decode sections image h session
        decodeFrom sections image rounds h.nextOffset (⟨offset, r.isOk⟩ :: outcomes) session
    else
      return (outcomes, session)

def decode (sections : Sections) (image : Image) (session : Session) :
    Checked (List Outcome × Session) := do
  let (outcomes, session) ←
    decodeFrom sections image (sections.information.size + 1) 0 [] session
  return (outcomes.reverse,
    { session with symbols := { session.symbols with capabilities := Session.capabilities } })

end Session

variable {sections : Sections}

namespace CompilationUnit

open Dwarf2.CompilationUnit (Header)

theorem follows_readHeader {s : Section} (h : Addressable s) (start : Nat) :
    Follows (readHeader s) (Header.read s) start := by
  refine .bind (.position start) fun _ _ _ => ?_
  refine .bind (Section.follows_uint32 h _) fun _ _ _ => ?_
  refine .ite (fun _ => Section.follows_fault _ _) fun _ => ?_
  refine .bind (Section.follows_uint16 h _) fun _ _ _ => ?_
  refine .bind (Section.follows_uint32 h _) fun _ _ _ => ?_
  exact .bind (Section.follows_uint8 h _) fun _ _ _ => .pure _ _

theorem readAbbreviations_eq (fits : Fits sections) (h : Header) : readAbbreviations sections h =
    .ok (Dwarf2.CompilationUnit.readAbbreviations sections h) :=
  Abbreviation.readTable_eq (s := ⟨_, _, _⟩) fits.abbreviations _

theorem source_eq (fits : Fits sections) (image : Image) (h : Header) :
    source sections image h = .ok (Dwarf2.CompilationUnit.source sections image h) := by
  have tree (abbreviations : Abbreviation.Table) : readTree sections h abbreviations =
      .ok (Dwarf2.CompilationUnit.readTree sections h abbreviations) :=
    Entry.readTree_eq (v := CompilationUnit.viewOf sections h) fits.information fits.strings _ _ _
  unfold source Dwarf2.CompilationUnit.source
  split
  · rfl
  · rw [readAbbreviations_eq fits, ok_bind]
    cases Dwarf2.CompilationUnit.readAbbreviations sections h with
    | error e => rfl
    | ok abbreviations =>
      dsimp only
      rw [tree, ok_bind]
      cases read : Dwarf2.CompilationUnit.readTree sections h abbreviations <;>
      · simp only [bind, Except.bind, read]
        rfl

theorem view_of_source {image : Image} {h : Header} {src : Build.Source}
    (got : Dwarf2.CompilationUnit.source sections image h = .ok src) :
    src.view = CompilationUnit.viewOf sections h := by
  obtain ⟨abbreviations, tree, -, -, rfl⟩ := CompilationUnit.exists_of_source got
  rfl

/-- The resolver never runs out of steps, so only the names may run out. -/
theorem buildUnit_eq {src : Build.Source} (info : Addressable src.view.info)
    (strings : Addressable ⟨.strings, src.view.order, src.view.strings⟩) {session : Session}
    {r : Except Error Build.Root} {s : Build.State}
    (built : (Build.buildUnit src).run { symbols := session.symbols, names := session.names } =
      (r, s)) (room : s.names.next < 2 ^ 64) : buildUnit src session = .ok (r, s) := by
  have fresh := Build.slot_new session.symbols session.names
  obtain ⟨grows, -⟩ := (Build.Grows.refl _).buildUnit fresh built
  have enough : s.journal.any isExhausted = false := by
    refine List.any_eq_false.2 fun event mem => ?_
    have sound := (grows.sound event mem).resolve_left List.not_mem_nil
    cases event with
    | exhausted offset => exact sound.elim
    | _ => exact nofun
  rw [buildUnit, Entry.inspect_eq info strings, ok_bind, built]
  simp only [enough, Bool.not_false, guarded_of, ok_bind, room]
  rfl

theorem attachLines_eq (fits : Fits sections) (image : Image) (h : Header) (root : Build.Root)
    {symbols : Symbol.Table} (sound : symbols.WellFormed) :
    attachLines sections image h root symbols =
      .ok (Dwarf2.CompilationUnit.attachLines sections image h root symbols) := by
  unfold attachLines Dwarf2.CompilationUnit.attachLines
  cases root.lineProgram with
  | none => rfl
  | some offset =>
    dsimp only
    split
    · rfl
    · rw [Line.run_eq (s := ⟨.lines, sections.order, sections.lines⟩) fits.lines _ _ _ _ sound]
      rfl

theorem decode_eq (fits : Fits sections) (image : Image) (h : Header) {session : Session}
    (sound : session.symbols.WellFormed)
    (room : (Dwarf2.CompilationUnit.decode sections image h session).2.names.next < 2 ^ 64) :
    decode sections image h session =
      .ok (Dwarf2.CompilationUnit.decode sections image h session) := by
  unfold Dwarf2.CompilationUnit.decode at room ⊢
  rw [decode, source_eq fits, ok_bind]
  cases got : Dwarf2.CompilationUnit.source sections image h with
  | error e => rfl
  | ok src =>
    have view := view_of_source got
    have info : Addressable src.view.info := view ▸ fits.information
    have strings : Addressable ⟨.strings, src.view.order, src.view.strings⟩ := view ▸ fits.strings
    rw [got] at room
    dsimp only at room ⊢
    match built : (Build.buildUnit src).run
        { symbols := session.symbols, names := session.names } with
    | (.error e, s) =>
      rw [built] at room
      rw [buildUnit_eq info strings built room]
      rfl
    | (.ok root, s) =>
      rw [built] at room
      have sound' := (Dwarf2.CompilationUnit.adds_buildUnit built).wellFormed sound
      rw [buildUnit_eq info strings built room, ok_bind]
      dsimp only
      rw [attachLines_eq fits image h root sound']
      rfl

end CompilationUnit

namespace Session

open Dwarf2.Session (Outcome Run header?)

/-- A header is read with all steps taken, or there is an error to tell of. -/
theorem readHeader_of_header? (fits : Fits sections) (offset : Nat) :
    (∃ e, header? sections offset = none ∧
      CompilationUnit.readHeader ⟨.information, sections.order, sections.information⟩ offset =
        .ok (.error e)) ∨
    ∃ h stop, header? sections offset = some h ∧ h.nextOffset = offset + 4 + h.length.toNat ∧
      CompilationUnit.readHeader ⟨.information, sections.order, sections.information⟩ offset =
        .ok (.ok (h, stop)) := by
  have read := CompilationUnit.follows_readHeader
    (s := ⟨.information, sections.order, sections.information⟩) fits.information offset
  rw [read.run_eq, header?, Read.value]
  cases got : (Dwarf2.CompilationUnit.Header.read
      ⟨.information, sections.order, sections.information⟩).run offset with
  | error e => exact .inl ⟨e, rfl, rfl⟩
  | ok r =>
    obtain ⟨h, stop⟩ := r
    refine .inr ⟨h, stop, rfl, ?_, rfl⟩
    rw [Dwarf2.CompilationUnit.Header.nextOffset, Dwarf2.CompilationUnit.Header.offset_of_read got]

theorem header?_of_readHeader (fits : Fits sections) {offset stop : Nat}
    {h : Dwarf2.CompilationUnit.Header}
    (evaluated : CompilationUnit.readHeader ⟨.information, sections.order, sections.information⟩
      offset = .ok (.ok (h, stop))) : header? sections offset = some h := by
  rcases readHeader_of_header? fits offset with ⟨e, -, read⟩ | ⟨h', stop', found, -, read⟩
  · cases evaluated.symm.trans read
  · cases evaluated.symm.trans read
    exact found

/-- Each unit finds a sound table, made by those before it, and leaves one.  The names only
become more, so there have never been more of them than in the end. -/
theorem decodeFrom_of_run (fits : Fits sections) {image : Image} {offset rounds : Nat}
    {session final : Session} {outcomes : List Outcome}
    (run : Run sections image offset session outcomes final)
    (sound : session.symbols.WellFormed) (room : final.names.next < 2 ^ 64)
    (enough : sections.information.size - offset ≤ rounds) (before : List Outcome) :
    decodeFrom sections image (rounds + 1) offset before session =
      .ok (outcomes.reverse ++ before, final) := by
  induction run generalizing rounds before with
  | @outside offset session at_end =>
    rw [decodeFrom, if_neg (Nat.not_lt.2 at_end)]
    rfl
  | @unreadable offset session inside failed =>
    rcases readHeader_of_header? fits offset with ⟨e, -, read⟩ | ⟨h, stop, found, -, -⟩
    · rw [decodeFrom, if_pos inside, read]
      rfl
    · cases failed.symm.trans found
  | @unit offset h session final outcomes inside found behind ih =>
    rcases readHeader_of_header? fits offset with ⟨e, none, -⟩ | ⟨h', stop, found', next, read⟩
    · cases none.symm.trans found
    · cases found.symm.trans found'
      have adds := Dwarf2.CompilationUnit.adds_decode sections image h session
      have sound' := adds.wellFormed sound
      have room' := Nat.lt_of_le_of_lt behind.adds.names.le room
      -- The header alone takes bytes, so there is a round left.
      obtain ⟨rounds, rfl⟩ : ∃ fewer, rounds = fewer + 1 :=
        Nat.exists_eq_add_one.2 (by omega)
      rw [decodeFrom, if_pos inside, read, ok_bind]
      dsimp only
      rw [CompilationUnit.decode_eq fits image h sound room', ok_bind]
      rw [next, ih sound' room (by omega), List.reverse_cons, List.append_assoc]
      rfl

end Session

end Checked

namespace Session

/-- Whatever the sections hold, no step of a run is out of its range, be it in what is read or
in what is made of it.  The step that counts the blocks of a function is named by itself, as a
builder takes it in the middle of its work.  Names have numbers, and these have to be enough. -/
theorem decode_never_panics (sections : Sections) (image : Image) (names : NameSupply)
    (fits : Checked.Fits sections)
    (room : (decode sections image { names }).2.names.next < 2 ^ 64) :
    Checked.Session.decode sections image { names } = .ok (decode sections image { names }) ∧
      ∀ (t : Symbol.Table) (id : SymbolId) (b : Symbol.Block),
        Checked.Symbol.openBlock t id b = .ok (t.openBlock id b) := by
  refine ⟨?_, Checked.Symbol.openBlock_eq⟩
  obtain ⟨outcomes, final, run, eq⟩ := run_decode sections image { names }
  rw [eq] at room ⊢
  have rounds : Checked.Session.decodeFrom sections image (sections.information.size + 1) 0 []
      { names } = .ok (outcomes.reverse ++ [], final) :=
    Checked.Session.decodeFrom_of_run fits run .empty room (Nat.sub_le ..) []
  rw [Checked.Session.decode, rounds, Checked.ok_bind, List.append_nil]
  dsimp only
  rw [List.reverse_reverse]
  rfl

namespace Nameless

/-- A unit with a line number program and with nothing else, not even a name. -/
def sections : Sections where
  order := .little
  information := #[12, 0, 0, 0, 2, 0, 0, 0, 0, 0, 4, 1, 0, 0, 0, 0]
  abbreviations := #[1, 0x11, 0, 0x10, 0x06, 0, 0, 0]
  strings := #[]
  lines := #[34, 0, 0, 0, 2, 0, 17, 0, 0, 0, 1, 1, 0xfb, 14, 4, 0, 1, 1, 0, 97, 46, 99, 0, 0, 0,
    0, 0, 0, 5, 2, 16, 0, 0, 0, 20, 0, 1, 1]

def image : Image :=
  ⟨0x1000, []⟩

def header : CompilationUnit.Header :=
  ⟨0, 12, 2, 0, 4⟩

def view : UnitView :=
  CompilationUnit.viewOf sections header

def shape : Abbreviation :=
  ⟨1, .compileUnit, false, [⟨.lineProgram, .data4⟩]⟩

def abbreviations : Abbreviation.Table :=
  .ofDeclarations [shape]

def root : Entry :=
  ⟨11, shape, [12], []⟩

theorem fits : Checked.Fits sections :=
  ⟨by decide, by decide, by decide, by decide⟩

theorem header?_eq : header? sections 0 = some header := by
  have evaluated : Checked.CompilationUnit.readHeader
      ⟨.information, sections.order, sections.information⟩ 0 = .ok (.ok (header, 11)) := rfl
  exact Checked.Session.header?_of_readHeader fits evaluated

theorem readAbbreviations_eq :
    CompilationUnit.readAbbreviations sections header = .ok abbreviations := by
  have evaluated : Checked.CompilationUnit.readAbbreviations sections header =
      .ok (.ok abbreviations) := by with_unfolding_all rfl
  have checked := Checked.CompilationUnit.readAbbreviations_eq fits header
  exact Except.ok.inj (checked.symm.trans evaluated)

theorem exists_source :
    ∃ src, CompilationUnit.source sections image header = .ok src ∧ src.tree.root = root := by
  have evaluated : Checked.Entry.readNode? view abbreviations 16
      (Checked.Entry.readForest view abbreviations 16 view.information.size) 11 =
        .ok (.ok (some root, 16)) := by cbv
  obtain ⟨ascending, read⟩ : ∃ ascending, CompilationUnit.readTree sections header abbreviations =
      .ok (.ofRoot root ascending) :=
    Checked.Entry.exists_read_of_readNode? (v := view) fits.information fits.strings evaluated
  refine ⟨⟨view, .ofRoot root ascending, image⟩, ?_, rfl⟩
  rw [CompilationUnit.source_eq rfl readAbbreviations_eq, read]
  rfl

theorem names_buildUnit {src : Build.Source} (h : src.tree.root = root) :
    ((Build.buildUnit src).run { symbols := {}, names := {} }).2.names.next = 1 := by
  unfold Build.buildUnit
  rw [h]
  rfl

theorem names_eq : (decode sections image {}).2.names.next = 1 := by
  obtain ⟨outcomes, final, run, eq⟩ := run_decode sections image {}
  rw [eq]
  cases run with
  | outside at_end => exact absurd at_end (by decide)
  | unreadable _ failed => cases failed.symm.trans header?_eq
  | unit _ found behind =>
    cases found.symm.trans header?_eq
    cases behind with
    | unreadable inside | unit inside => exact absurd inside (by decide)
    | outside =>
      obtain ⟨src, got, same⟩ := exists_source
      have names := names_buildUnit same
      unfold CompilationUnit.decode
      rw [got]
      dsimp only
      generalize (Build.buildUnit src).run _ = r at names ⊢
      obtain ⟨e | root, s⟩ := r <;> exact names

end Nameless

/-- The unit has its name made up, and its line number program run. -/
theorem nameless_never_panics :
    (decode Nameless.sections Nameless.image {}).2.names.next < 2 ^ 64 ∧
      Checked.Session.decode Nameless.sections Nameless.image {} =
        .ok (decode Nameless.sections Nameless.image {}) := by
  have room : (decode Nameless.sections Nameless.image {}).2.names.next < 2 ^ 64 := by
    rw [Nameless.names_eq]
    decide
  exact ⟨room, (decode_never_panics Nameless.sections Nameless.image {} Nameless.fits room).1⟩

end Session
end Dwarf2
