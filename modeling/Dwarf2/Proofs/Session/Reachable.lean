/-
The tables that decoding comes by.

Decoding starts out with no symbols.  From there units are built into the table and line number
programs run on it, in any order and as often as one likes, and what a program or a unit that
breaks off leaves is there as well.  `Reachable` goes by these steps, and not by whole units, for
a line number program is run where its unit is built and not yet decoded.
-/
import Dwarf2.Proofs.Session.Table

namespace Dwarf2
namespace Session

inductive Reachable : Symbol.Table → Prop
  | empty : Reachable {}
  | build {t : Symbol.Table} (h : Reachable t) (src : Build.Source) (names : NameSupply) :
      Reachable ((Build.buildUnit src).run { symbols := t, names }).2.symbols
  | run {t : Symbol.Table} (h : Reachable t) (s : Section) (offset : Nat)
      (compDir : Option String) (addressSize : UInt8) (base : UInt64) :
      Reachable (Line.run s offset compDir addressSize base t).2
  | offer {t : Symbol.Table} (h : Reachable t) (capabilities : Symbol.Capabilities) :
      Reachable { t with capabilities }

namespace Reachable

variable {t : Symbol.Table}

theorem wellFormed (h : Reachable t) : t.WellFormed := by
  induction h with
  | empty => exact .empty
  | @build t _ src names ih =>
    have adds := @CompilationUnit.adds_buildUnit src { symbols := t, names } _ _ rfl
    exact adds.wellFormed ih
  | run _ s offset compDir addressSize base ih => exact Line.wellFormed_run _ _ _ _ _ ih
  | offer _ capabilities ih => exact ih.offer capabilities

theorem attachLines (h : Reachable t) (sections : Sections) (image : Image)
    (header : CompilationUnit.Header) (root : Build.Root) :
    Reachable (CompilationUnit.attachLines sections image header root t) := by
  unfold CompilationUnit.attachLines
  split
  · exact h
  · split
    · exact h
    · exact h.run ..

theorem decodeUnit {session : Session} (h : Reachable session.symbols) (sections : Sections)
    (image : Image) (header : CompilationUnit.Header) :
    Reachable (CompilationUnit.decode sections image header session).2.symbols := by
  unfold CompilationUnit.decode
  split
  · exact h
  · rename_i src _
    have built := h.build src session.names
    split
    · rename_i eq
      rwa [eq] at built
    · rename_i eq
      rw [eq] at built
      exact built.attachLines ..

end Reachable

variable {sections : Sections} {image : Image} {session final : Session}

theorem Run.reachable {offset : Nat} {outcomes : List Outcome}
    (run : Run sections image offset session outcomes final) (h : Reachable session.symbols) :
    Reachable final.symbols := by
  induction run with
  | outside | unreadable => exact h
  | unit _ _ _ ih => exact ih (h.decodeUnit ..)

theorem Reachable.decode (h : Reachable session.symbols) (sections : Sections) (image : Image) :
    Reachable (Session.decode sections image session).2.symbols := by
  obtain ⟨outcomes, final, run, eq⟩ := run_decode sections image session
  rw [eq]
  exact (run.reachable h).offer capabilities

end Session
end Dwarf2
