/-
Resolving entries and building whole units relocates.
-/
import Dwarf2.Build.Root
import Dwarf2.Proofs.Build.Relocation.Function
import Dwarf2.Proofs.Build.Relocation.Type

namespace Dwarf2
namespace Build
namespace Relocates

variable {d : UInt64} {src : Source} {resolve resolve' : Resolver}

theorem build (room : src.image.HasRoom d)
    (answers : Resolves d resolve resolve') (e : Entry) :
    Relocates d (Build.build src resolve e) (Build.build (src.relocate d) resolve' e) := by
  unfold Build.build
  split
  · exact .map (.buildBaseType src e) some
  · exact .map (.buildTypedef answers e) some
  · exact .map (.buildPointer answers e) some
  · exact .map (.buildPointer answers e) some
  · exact .map (.buildAggregate answers _ e) some
  · exact .map (.buildAggregate answers _ e) some
  · exact .map (.buildAggregate answers _ e) some
  · exact .buildArray answers e
  · exact .typeOf answers e
  · exact .typeOf answers e
  · exact .map (.buildEnumeration src e) some
  · exact .buildSubprogram room answers e
  · exact .map (.buildSubroutineType answers e) some
  · exact .bind (.buildVariable answers {} none e) fun _ => .pure none
  · exact .pure none

theorem answer (offset : Nat) (id : Option SymbolId) :
    Relocates d (Build.answer offset id) (Build.answer offset id) :=
  .bind (.note _) fun _ => .pure id

theorem resolve_step (room : src.image.HasRoom d) {steps : Nat}
    (below : ∀ fewer, steps = fewer + 1 →
      Resolves d (Build.resolveWithin src fewer) (Build.resolveWithin (src.relocate d) fewer)) :
    Resolves d (Build.resolveWithin src steps) (Build.resolveWithin (src.relocate d) steps) := by
  intro offset
  unfold Build.resolveWithin
  rw [Source.tree_relocate]
  split
  · exact .answer offset none
  rename_i e _
  refine .get_bind (fun s => ?_) fun s s' moved => ?_
  case refine_2 => rw [moved.slot_eq]
  split
  · exact .answer offset _
  · exact .answer offset _
  cases steps with
  | zero => exact .bind (.note _) fun _ => .pure none
  | succ steps =>
    refine .bind (.setSlot offset _) fun _ => .bind (.build room (below steps rfl) e) fun id => ?_
    exact .bind (.setSlot offset _) fun _ => .answer offset id

theorem resolveWithin (room : src.image.HasRoom d) (steps : Nat) :
    Resolves d (Build.resolveWithin src steps) (Build.resolveWithin (src.relocate d) steps) := by
  induction steps with
  | zero => exact resolve_step room nofun
  | succ steps ih =>
    refine resolve_step room fun fewer h => ?_
    cases h
    exact ih

theorem setCompiland (id : SymbolId) :
    Relocates d (modify fun s => { s with compiland := some id })
      (modify fun s => { s with compiland := some id }) :=
  .beside (fun _ => rfl) fun _ _ => rfl

theorem buildUnit (room : src.image.HasRoom d) :
    Relocates d (Build.buildUnit src) (Build.buildUnit (src.relocate d)) := by
  refine .ite (fun _ => .pure _) fun _ => ?_
  refine .bind (.nameOf src _ _) fun name => .bind (.onTable_internFile _ name) fun source => ?_
  refine .bind (.push (.compiland source)) fun compiland => .bind (.setSlot _ _) fun _ => ?_
  refine .bind (.setCompiland compiland) fun _ => ?_
  refine .bind (.forM src.tree.root.children fun child => ?_) fun _ => .pure _
  exact .bind (.resolveWithin room src.tree.size child.offset) fun _ => .pure ()

end Relocates
end Build
end Dwarf2
