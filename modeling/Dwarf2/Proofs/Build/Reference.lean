/-
What is stored for the references between types.

A reference is followed while the entry that it leads to may be in the middle of being built.
If that entry has told its identifier, or has not been asked for at all, the symbol that is
stored is the one that the entry has in the end, whichever was asked for first.  If it has been
asked for and has not told an identifier, nothing is stored.

Mathlib is imported as a whole for the equations of the library by which `cbv` evaluates the
builders on examples, here and in the modules behind this one.
-/
import Mathlib
import Dwarf2.Proofs.Build.Calls

namespace Dwarf2
namespace Build

variable {src : Source} {s : State}

/-- What is stored for the type of entry `c` in the symbol of `owner`, when nothing is at
work.  It depends on how the slot of the target was `found` when the reference was followed. -/
def Keeps (src : Source) (s : State) (owner c : Entry) (stored : Option SymbolId) : Prop :=
  ∀ target d, c.reference? src.view .type = some target → src.tree.get? target = some d →
    target ≠ src.tree.root.offset →
      ∃ found r, .followed c.offset target found ∈ s.journal ∧ slot s target = .resolved r ∧
        (found ≠ .pending none → stored = r) ∧
        (found = .pending none → stored = none ∧ (r ≠ none → Detours src d owner.offset))

/-- All that an entry is resolved to is what is due to it, with the symbols of the types that it
refers to.  A reference is lost only where a qualified type, a type of functions or a function
is met again in the middle of asking for the type that itself refers to. -/
theorem described_after (src : Source) (symbols : Symbol.Table) (names : NameSupply)
    (calls : List Call) (offset : Nat) (e : Entry) (r : Option SymbolId) :
    let s := after src symbols names calls
    src.tree.get? offset = some e → slot s offset = .resolved r →
      Describes src (Keeps src s e) (symbols.size ≤ ·.index) s e r := by
  intro s he resolved
  have grows : Grows src {} { symbols, names } s := grows_after src symbols names calls
  have fresh := slot_new symbols names
  refine (grows.described offset e r he ⟨fresh offset, resolved⟩).imp ?_
    fun id x hnew hx => ⟨hx, hnew.1⟩
  intro c stored refers target d href hd ne
  simp only [Refers, href, hd] at refers
  obtain ⟨asked, found, followed, told, lost⟩ := refers ne
  obtain ⟨r, hr⟩ := (grows.idle fresh target).resolve_left asked
  refine ⟨found, r, followed, hr, fun h => ?_, fun h => ?_⟩
  · have := told h
    rw [hr] at this
    exact (Option.some.inj this).symm
  · obtain ⟨nothing, awaits⟩ := lost h
    refine ⟨nothing, fun some => awaits.resolve_left fun never => some ?_⟩
    exact (grows.described target d r hd ⟨fresh target, hr⟩).eq_none_of_neverNamed never

/-! ## A reference that is lost

A structure has a pointer to its own constant type.  When the constant type is asked for first,
the pointer meets it before it has a symbol. -/

/-- An entry of which only its type is known. -/
def typed (offset : Nat) (code : UInt64) (tag : Tag) : Entry :=
  ⟨offset, ⟨code, tag, false, [⟨.type, .ref1⟩]⟩, [offset + 1], []⟩

def circle : Source where
  view := ⟨.little, #[1, 2, 3, 3, 4, 7, 0, 5, 1, 0], #[], 0, 4⟩
  tree := .ofRoot
    ⟨0, ⟨1, .compileUnit, true, []⟩, [],
      [typed 1 2 .constType, ⟨3, ⟨3, .structureType, true, []⟩, [], [typed 4 4 .member]⟩,
        typed 7 5 .pointerType]⟩
    (by decide)
  image := ⟨0, []⟩

theorem size_circle : circle.tree.size = 5 := by
  simp [circle, Entry.Tree.size, Entry.Tree.ofRoot, Entry.fold, Entry.foldAll, typed,
    Std.HashMap.size_insert]

theorem after_circle (offset : Nat) : after circle {} {} [.resolve offset] =
    ((resolveWithin circle 5 offset).run { symbols := {}, names := {} }).2 := by
  rw [← size_circle]
  rfl

theorem described_circle :
    let s := after circle {} {} [.resolve 1]
    circle.tree.get? 7 = some (typed 7 5 .pointerType) ∧ slot s 7 = .resolved (some ⟨1⟩) ∧
      Describes circle (Keeps circle s (typed 7 5 .pointerType))
        (({} : Symbol.Table).size ≤ ·.index) s (typed 7 5 .pointerType) (some ⟨1⟩) := by
  intro s
  have there : circle.tree.get? 7 = some (typed 7 5 .pointerType) := by cbv
  have resolved : slot s 7 = .resolved (some ⟨1⟩) := by
    rw [show s = _ from after_circle 1]
    cbv
  exact ⟨there, resolved, described_after circle {} {} [.resolve 1] 7 _ _ there resolved⟩

/-- The pointer refers to the constant type, which is resolved to the structure.  Whether the
pointer has it for its target depends on which of them was asked for first. -/
theorem target_lost :
    let s := after circle {} {} [.resolve 1]
    circle.tree.get? 7 = some (typed 7 5 .pointerType) ∧
      (typed 7 5 .pointerType).reference? circle.view .type = some 1 ∧
      circle.tree.get? 1 = some (typed 1 2 .constType) ∧ 1 ≠ circle.tree.root.offset ∧
      slot s 7 = .resolved (some ⟨1⟩) ∧ slot s 1 = .resolved (some ⟨0⟩) ∧
      s.symbols.get? ⟨1⟩ = some (.pointer ⟨none, 4⟩) ∧
      (after circle {} {} [.resolve 3]).symbols.get? ⟨1⟩ = some (.pointer ⟨some ⟨0⟩, 4⟩) := by
  rw [after_circle, after_circle]
  refine ⟨?_, ?_, ?_, ?_, ?_, ?_, ?_, ?_⟩
  · cbv
  · decide
  · cbv
  · decide
  · cbv
  · cbv
  · cbv
  · cbv

end Build
end Dwarf2
