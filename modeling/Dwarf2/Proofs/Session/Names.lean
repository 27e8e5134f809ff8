/-
The names that are made up in a session.

They come from one supply, which all units of all modules take from.  How a unit takes from it is
told by `Builds`, so a session only has to be followed from one request to the next.
-/
import Dwarf2.Proofs.Session.Table

namespace Dwarf2
namespace Session

/-- What a session may be asked for. -/
inductive Request
  | name (label : String)
  | unit (sections : Sections) (image : Image) (h : CompilationUnit.Header)
  | module (sections : Sections) (image : Image)
  /-- From here on, symbols go into another table. -/
  | table (symbols : Symbol.Table)

def perform (session : Session) : Request → Session
  | .name label => { session with names := (session.names.fresh label).2 }
  | .unit sections image h => (CompilationUnit.decode sections image h session).2
  | .module sections image => (decode sections image session).2
  | .table symbols => { session with symbols }

theorem advances_decode (sections : Sections) (image : Image) (session : Session) :
    session.names.Advances (decode sections image session).2.names := by
  obtain ⟨outcomes, final, run, eq⟩ := run_decode sections image session
  rw [eq]
  exact run.adds.names

theorem advances_perform (session : Session) (request : Request) :
    session.names.Advances (session.perform request).names := by
  cases request with
  | name label => exact .fresh label _
  | unit sections image h => exact (CompilationUnit.adds_decode sections image h session).names
  | module sections image => exact advances_decode sections image session
  | table => exact .refl _

theorem advances_foldl (requests : List Request) (session : Session) :
    session.names.Advances (requests.foldl perform session).names := by
  induction requests generalizing session with
  | nil => exact .refl _
  | cons request requests ih => exact (advances_perform session request).trans (ih _)

/-- Whatever a session is asked for, the names that it makes up are those of one row of labels.
No two of them are equal, a unit that fails has none of them, and an entry that has no name of its
own gets the one that was made up for it. -/
theorem names_never_repeat (requests : List Request) (session : Session) :
    let final := requests.foldl perform session
    (∃ labels,
      let (produced, names) := session.names.freshAll labels
      final.names = names ∧ names.issued = produced.reverse ++ session.names.issued ∧
        names.next = session.names.next + produced.length ∧ produced.Nodup) ∧
    (∀ sections image h e, (CompilationUnit.decode sections image h final).1 = .error e →
      final.perform (.unit sections image h) = final) ∧
    ∀ src e label name s s', (Build.nameOf src e label).run s = (name, s') →
      e.text? src.view .name = some name ∨ s'.names.issued = name :: s.names.issued := by
  intro final
  refine ⟨?_, fun sections image h e failed => ?_, fun _ _ _ _ _ _ => Build.issued_of_run_nameOf⟩
  · obtain ⟨labels, eq⟩ := advances_foldl requests session
    refine ⟨labels, eq, ?_⟩
    rw [NameSupply.freshAll_eq]
    refine ⟨rfl, ?_, NameSupply.nodup_numbered _ _⟩
    rw [NameSupply.numbered, List.length_mapIdx]
  · exact decode_of_not_isOk (by rw [failed]; rfl)

end Session
end Dwarf2
