/-
The builders of types relocate.
-/
import Dwarf2.Build.Type
import Dwarf2.Proofs.Build.Relocation.Step

namespace Dwarf2
namespace Build
namespace Relocates

variable {d : UInt64} {src : Source} {resolve resolve' : Resolver}

theorem buildBaseType (src : Source) (e : Entry) :
    Relocates d (Build.buildBaseType src e) (Build.buildBaseType (src.relocate d) e) :=
  .bind (.nameOf src e _) fun _ => .push _

theorem buildTypedef (answers : Resolves d resolve resolve') (e : Entry) :
    Relocates d (Build.buildTypedef src resolve e)
      (Build.buildTypedef (src.relocate d) resolve' e) :=
  .inPlace e (.bind (.nameOf src e _) fun _ => .bind (.typeOf answers e) fun _ => .pure _)
    fun _ => rfl

theorem buildPointer (answers : Resolves d resolve resolve') (e : Entry) :
    Relocates d (Build.buildPointer src resolve e)
      (Build.buildPointer (src.relocate d) resolve' e) :=
  .inPlace e (.bind (.typeOf answers e) fun _ => .pure _) fun _ => rfl

theorem readBounds (answers : Resolves d resolve resolve') (range : Subrange) (e : Entry) :
    Relocates d (Build.readBounds src resolve range e)
      (Build.readBounds (src.relocate d) resolve' range e) := by
  unfold Build.readBounds
  split
  · exact .bind (.typeOf answers e) fun _ => .pure _
  · exact .pure range

theorem buildArray (answers : Resolves d resolve resolve') (e : Entry) :
    Relocates d (Build.buildArray src resolve e)
      (Build.buildArray (src.relocate d) resolve' e) := by
  refine .ite (fun _ => .pure none) fun _ => .map (.inPlace e ?_ fun _ => rfl) some
  exact .bind (.typeOf answers e) fun _ =>
    .bind (.foldlM e.children (.readBounds answers) {}) fun _ => .pure _

theorem buildMember (answers : Resolves d resolve resolve') (aggregate : SymbolId) (e : Entry) :
    Relocates d (Build.buildMember src resolve aggregate e)
      (Build.buildMember (src.relocate d) resolve' aggregate e) := by
  refine .bind (.nameOf src e _) fun name => .bind (.typeOf answers e) fun type => ?_
  refine .get_bind (fun s => ?_) fun s s' moved => ?_
  · exact .change (.addMember aggregate _) nofun (fun _ => rfl) fun _ => rfl
  · simp only [moved.symbols.typeLength?_eq]

theorem buildContent (answers : Resolves d resolve resolve') (aggregate : SymbolId) (e : Entry) :
    Relocates d (Build.buildContent src resolve aggregate e)
      (Build.buildContent (src.relocate d) resolve' aggregate e) := by
  unfold Build.buildContent
  split
  · exact .buildMember answers aggregate e
  · exact .bind (answers e.offset) fun _ => .pure ()
  · exact .pure ()

theorem buildAggregate (answers : Resolves d resolve resolve') (kind : Symbol.AggregateKind)
    (e : Entry) :
    Relocates d (Build.buildAggregate src resolve kind e)
      (Build.buildAggregate (src.relocate d) resolve' kind e) :=
  .bind (.nameOf src e _) fun _ => .withParts e _ fun id =>
    .forM e.children (.buildContent answers id)

theorem buildEnumerator (src : Source) (enumeration : SymbolId) (e : Entry) :
    Relocates d (Build.buildEnumerator src enumeration e)
      (Build.buildEnumerator (src.relocate d) enumeration e) := by
  unfold Build.buildEnumerator
  split
  · refine .bind (.nameOf src e _) fun name => ?_
    exact .change (.addEnumerator enumeration ⟨name, _⟩) nofun (fun _ => rfl) fun _ => rfl
  · exact .pure ()

theorem buildEnumeration (src : Source) (e : Entry) :
    Relocates d (Build.buildEnumeration src e) (Build.buildEnumeration (src.relocate d) e) :=
  .bind (.nameOf src e _) fun _ => .withParts e _ fun id =>
    .forM e.children (.buildEnumerator src id)

theorem buildParameterType (answers : Resolves d resolve resolve') (signature : SymbolId)
    (e : Entry) :
    Relocates d (Build.buildParameterType src resolve signature e)
      (Build.buildParameterType (src.relocate d) resolve' signature e) := by
  unfold Build.buildParameterType
  split
  · exact .bind (.typeOf answers e) fun type =>
      .change (.addParameter signature type) nofun (fun _ => rfl) fun _ => rfl
  · exact .pure ()

theorem buildSubroutineType (answers : Resolves d resolve resolve') (e : Entry) :
    Relocates d (Build.buildSubroutineType src resolve e)
      (Build.buildSubroutineType (src.relocate d) resolve' e) :=
  .bind (.typeOf answers e) fun _ => .withParts e _ fun id =>
    .forM e.children (.buildParameterType answers id)

end Relocates
end Build
end Dwarf2
