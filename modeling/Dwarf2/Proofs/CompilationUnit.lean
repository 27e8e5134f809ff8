/-
Decoding a unit into a session, or not at all.

The steps that can fail come before the first symbol is built, the check of the root entry
being the last of them.  So a unit that is not decoded leaves no trace.  What the line number
program does comes after all of them, and is not asked how it went.
-/
import Dwarf2.CompilationUnit
import Dwarf2.Proofs.Build.Run

namespace Dwarf2

namespace Build

variable {src : Source} {s : State}

theorem run_buildUnit_of_ne (tag : src.tree.root.tag ≠ .compileUnit) :
    (buildUnit src).run s = (.error (.unexpectedRoot src.tree.root.tag), s) := by
  unfold buildUnit
  rw [if_pos tag]
  rfl

/-- Past the check of the root nothing fails. -/
theorem run_buildUnit_of_tag (src : Source) (s : State) (tag : src.tree.root.tag = .compileUnit) :
    ∃ root s', (buildUnit src).run s = (.ok root, s') := by
  unfold buildUnit
  dsimp only
  rw [if_neg (Decidable.not_not.2 tag)]
  exact ⟨_, _, rfl⟩

end Build

namespace CompilationUnit

variable {sections : Sections} {image : Image} {h : Header} {session : Session}

/-- Why a unit is not decoded.  A reason applies only if none of those before it does. -/
inductive Fails (sections : Sections) (h : Header) : Error → Prop
  | version (other : h.version ≠ 2) : Fails sections h (.unsupportedVersion h.version)
  | abbreviations {e : Error} (version : h.version = 2)
      (failed : readAbbreviations sections h = .error e) : Fails sections h e
  /-- An entry at any depth cannot be read, or there is none at all. -/
  | tree {e : Error} {abbreviations : Abbreviation.Table} (version : h.version = 2)
      (read : readAbbreviations sections h = .ok abbreviations)
      (failed : readTree sections h abbreviations = .error e) : Fails sections h e
  | root {abbreviations : Abbreviation.Table} {tree : Entry.Tree} (version : h.version = 2)
      (read : readAbbreviations sections h = .ok abbreviations)
      (read' : readTree sections h abbreviations = .ok tree)
      (other : tree.root.tag ≠ .compileUnit) : Fails sections h (.unexpectedRoot tree.root.tag)

theorem source_eq {abbreviations : Abbreviation.Table} (version : h.version = 2)
    (read : readAbbreviations sections h = .ok abbreviations) :
    source sections image h =
      (readTree sections h abbreviations).map fun tree => ⟨viewOf sections h, tree, image⟩ := by
  rw [source, if_neg (Decidable.not_not.2 version), read]
  change Except.bind (readTree sections h abbreviations) _ = _
  cases readTree sections h abbreviations <;> rfl

theorem exists_of_source {src : Build.Source} (got : source sections image h = .ok src) :
    ∃ abbreviations tree, readAbbreviations sections h = .ok abbreviations ∧
      readTree sections h abbreviations = .ok tree ∧ src = ⟨viewOf sections h, tree, image⟩ := by
  by_cases version : h.version = 2
  case neg =>
    rw [source, if_pos version] at got
    cases got
  cases read : readAbbreviations sections h with
  | error e =>
    rw [source, if_neg (Decidable.not_not.2 version), read] at got
    cases got
  | ok abbreviations =>
    rw [source_eq version read] at got
    cases read' : readTree sections h abbreviations with
    | error e =>
      rw [read'] at got
      cases got
    | ok tree =>
      rw [read'] at got
      cases got
      exact ⟨abbreviations, tree, rfl, read', rfl⟩

theorem decode_of_fails {e : Error} (fails : Fails sections h e) :
    decode sections image h session = (.error e, session) := by
  cases fails with
  | version other =>
    have failed : source sections image h = .error (.unsupportedVersion h.version) := by
      rw [source, if_pos other]
      rfl
    rw [decode, failed]
  | abbreviations version failed =>
    have failed : source sections image h = .error e := by
      rw [source, if_neg (Decidable.not_not.2 version), failed]
      rfl
    rw [decode, failed]
  | tree version read failed =>
    rw [decode, source_eq version read, failed]
    rfl
  | root version read read' other =>
    rw [decode, source_eq version read, read']
    dsimp only [Except.map]
    rw [Build.run_buildUnit_of_ne other]

theorem fails_or_decode (sections : Sections) (image : Image) (h : Header) (session : Session) :
    (∃ e, Fails sections h e) ∨ (decode sections image h session).1 = .ok () := by
  by_cases version : h.version = 2
  case neg => exact .inl ⟨_, .version version⟩
  cases read : readAbbreviations sections h with
  | error e => exact .inl ⟨e, .abbreviations version read⟩
  | ok abbreviations =>
    cases read' : readTree sections h abbreviations with
    | error e => exact .inl ⟨e, .tree version read read'⟩
    | ok tree =>
      by_cases tag : tree.root.tag = .compileUnit
      case neg => exact .inl ⟨_, .root version read read' tag⟩
      right
      rw [decode, source_eq version read, read']
      dsimp only [Except.map]
      obtain ⟨root, s, built⟩ := Build.run_buildUnit_of_tag ⟨viewOf sections h, tree, image⟩
        { symbols := session.symbols, names := session.names } tag
      rw [built]

/-- The sections but for the line number programs. -/
theorem fails_lines_iff (lines : Bytes) {e : Error} :
    Fails { sections with lines } h e ↔ Fails sections h e := by
  constructor
  · rintro (other | ⟨version, failed⟩ | ⟨version, read, failed⟩ | ⟨version, read, read', other⟩)
    · exact .version other
    · exact .abbreviations version failed
    · exact .tree version read failed
    · exact .root version read read' other
  · rintro (other | ⟨version, failed⟩ | ⟨version, read, failed⟩ | ⟨version, read, read', other⟩)
    · exact .version other
    · exact .abbreviations version failed
    · exact .tree version read failed
    · exact .root version read read' other

/-- A unit that is not decoded leaves the session as it was.  It is decoded unless one of the
reasons applies, and none of them is about its line number program. -/
theorem decode_atomic (sections : Sections) (image : Image) (h : Header) (session : Session) :
    (∀ e, (decode sections image h session).1 = .error e →
        (decode sections image h session).2 = session) ∧
      (∀ e, (decode sections image h session).1 = .error e ↔ Fails sections h e) ∧
      ∀ lines, (decode { sections with lines } image h session).1 =
        (decode sections image h session).1 := by
  have failure : ∀ e, (decode sections image h session).1 = .error e → Fails sections h e := by
    intro e failed
    rcases fails_or_decode sections image h session with ⟨e', fails⟩ | done
    · rw [decode_of_fails fails] at failed
      cases failed
      exact fails
    · rw [done] at failed
      cases failed
  refine ⟨fun e failed => ?_, fun e => ⟨failure e, fun fails => ?_⟩, fun lines => ?_⟩
  · rw [decode_of_fails (failure e failed)]
  · rw [decode_of_fails fails]
  · rcases fails_or_decode sections image h session with ⟨e, fails⟩ | done
    · rw [decode_of_fails fails, decode_of_fails ((fails_lines_iff lines).2 fails)]
    · rcases fails_or_decode { sections with lines } image h session with ⟨e, fails⟩ | done'
      · rw [decode_of_fails ((fails_lines_iff lines).1 fails)] at done
        cases done
      · rw [done, done']

end CompilationUnit
end Dwarf2
