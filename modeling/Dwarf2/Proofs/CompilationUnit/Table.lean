/-
What a unit does to the table that it is decoded into.

The builder puts the symbols of the unit behind those that are there, and the line number
program gives lines to any of them.  The table may come from anywhere.  If it was well formed,
it is so again.
-/
import Dwarf2.CompilationUnit
import Dwarf2.Proofs.Build.Sound.Unit
import Dwarf2.Proofs.Line.Program

namespace Dwarf2
namespace CompilationUnit

open Dwarf2.Symbol (Gains)
open Dwarf2.Symbol.Table (Extends)

/-- What a unit has done to a session, as far as its table and the names are concerned. -/
structure Adds (session session' : Session) : Prop where
  grows : session.symbols.Extends (fun _ => Gains) session'.symbols
  wellFormed : session.symbols.WellFormed → session'.symbols.WellFormed
  names : session.names.Advances session'.names

namespace Adds

theorem refl (session : Session) : Adds session session :=
  ⟨.refl (fun _ => .same) _, fun h => h, .refl _⟩

theorem trans {a b c : Session} (h : Adds a b) (h' : Adds b c) : Adds a c :=
  ⟨h.grows.trans (fun _ _ _ _ => .trans) h'.grows, fun sound => h'.wellFormed (h.wellFormed sound),
    h.names.trans h'.names⟩

end Adds

variable {sections : Sections} {image : Image} {h : Header}

theorem adds_buildUnit {src : Build.Source} {session : Session} {r : Except Error Build.Root}
    {s : Build.State}
    (built : (Build.buildUnit src).run { symbols := session.symbols, names := session.names } =
      (r, s)) : Adds session { symbols := s.symbols, names := s.names } := by
  obtain ⟨sound, grows, names⟩ := (Build.sound_new session.symbols session.names).buildUnit built
  refine ⟨grows.imp fun _ x _ _ within => ?_, fun before => sound.table.wellFormed before grows,
    names⟩
  rw [within.kept List.not_mem_nil]
  exact .same x

theorem adds_attachLines (sections : Sections) (image : Image) (h : Header) (root : Build.Root)
    (symbols : Symbol.Table) (names : NameSupply) :
    Adds { symbols, names } { symbols := attachLines sections image h root symbols, names } := by
  unfold attachLines
  split
  · exact .refl _
  · split
    · exact .refl _
    · exact ⟨Line.gains_run _ _ _ _ _ _, Line.wellFormed_run _ _ _ _ _, .refl _⟩

theorem adds_decode (sections : Sections) (image : Image) (h : Header) (session : Session) :
    Adds session (decode sections image h session).2 := by
  unfold decode
  split
  · exact .refl session
  · split
    · rename_i built
      exact adds_buildUnit built
    · rename_i built
      exact (adds_buildUnit built).trans (adds_attachLines sections image h _ _ _)

/-- No unit disturbs what is in the table when it is decoded.  All symbols keep their
identifiers and stay as they are, but for lines that functions get in between those that they
have. -/
theorem decode_extends (sections : Sections) (image : Image) (h : Header) (session : Session) :
    session.symbols.Extends (fun _ => Gains) (decode sections image h session).2.symbols :=
  (adds_decode sections image h session).grows

end CompilationUnit
end Dwarf2
