/-
The builders of functions and variables relocate.

These are the builders that compute addresses.  Where a function starts is also asked of the
thunks, which are moved along with it.
-/
import Dwarf2.Build.Function
import Dwarf2.Proofs.Build.Relocation.Step

namespace Dwarf2
namespace Build

variable {d : UInt64} {src : Source} {resolve resolve' : Resolver}

theorem extent_relocate (d : UInt64) (src : Source) (e : Entry) :
    extent (src.relocate d) e = ((extent src e).1 + d, (extent src e).2) :=
  congrArg (·, (extent src e).2) (src.image.address_relocate d _)

namespace Relocates

/-! ## Variables and labels -/

theorem buildLocal (scope : Scope) (block : Option Nat) (e : Entry) (name : String)
    (type : Option SymbolId) (register : Option UInt16) (deref : Bool) (offset : Int64) :
    Relocates d (Build.buildLocal scope block e name type register deref offset)
      (Build.buildLocal scope block e name type register deref offset) := by
  obtain ⟨function, signature, frame⟩ := scope
  cases function with
  | some function => exact .change (.addLocal function _) nofun (fun _ => rfl) fun _ => rfl
  | none => exact .change (.addDetached _) nofun (fun _ => rfl) fun _ => rfl

theorem buildGlobal (src : Source) (e : Entry) (name : String) (type : Option SymbolId)
    (offset : Int64) :
    Relocates d (Build.buildGlobal src e name type offset)
      (Build.buildGlobal (src.relocate d) e name type offset) := by
  unfold Build.buildGlobal
  rw [Source.image_relocate, Image.address_relocate]
  refine .get_bind (fun s => .bind (.push _) fun _ => .pure ()) fun s s' moved => ?_
  rw [moved.compiland]

theorem buildLocated (src : Source) (scope : Scope) (block : Option Nat) (e : Entry)
    (name : String) (type : Option SymbolId) :
    Relocates d (Build.buildLocated src scope block e name type)
      (Build.buildLocated (src.relocate d) scope block e name type) := by
  unfold Build.buildLocated
  rw [Source.view_relocate]
  split
  · exact .pure ()
  · exact .buildGlobal src e name type _
  · exact .buildLocal scope block e name type _ _ _
  · exact .buildLocal scope block e name type _ _ _

theorem countParameter (scope : Scope) (e : Entry) (type : Option SymbolId) :
    Relocates d (Build.countParameter scope e type) (Build.countParameter scope e type) := by
  unfold Build.countParameter
  refine .ite (fun _ => ?_) fun _ => .pure ()
  split
  · exact .change (.addParameter _ type) nofun (fun _ => rfl) fun _ => rfl
  · exact .pure ()

theorem buildVariable (answers : Resolves d resolve resolve')
    (scope : Scope) (block : Option Nat) (e : Entry) :
    Relocates d (Build.buildVariable src resolve scope block e)
      (Build.buildVariable (src.relocate d) resolve' scope block e) :=
  .bind (.typeOf answers e) fun type => .bind (.nameOf src e _) fun name =>
    .bind (.buildLocated src scope block e name type) fun _ => .countParameter scope e type

theorem buildLabel (src : Source) (scope : Scope) (e : Entry) :
    Relocates d (Build.buildLabel src scope e) (Build.buildLabel (src.relocate d) scope e) := by
  unfold Build.buildLabel
  rw [Source.image_relocate, Image.address_relocate]
  refine .bind (.nameOf src e _) fun name => ?_
  split
  · exact .change (.addLabel _ _) nofun (fun _ => rfl) fun _ => rfl
  · exact .pure ()

/-! ## Parts -/

theorem openBlock (src : Source) (scope : Scope) (parent : Option Nat) (e : Entry) :
    Relocates d (Build.openBlock src scope parent e)
      (Build.openBlock (src.relocate d) scope parent e) := by
  unfold Build.openBlock
  rw [extent_relocate]
  dsimp only
  split
  · exact .onTable_openBlock _ ⟨_, _, parent⟩
  · exact .pure none

mutual

theorem buildPart (answers : Resolves d resolve resolve')
    (scope : Scope) (inBlock : Bool) (block : Option Nat) :
    (e : Entry) → Relocates d (Build.buildPart src resolve scope inBlock block e)
      (Build.buildPart (src.relocate d) resolve' scope inBlock block e)
  | ⟨offset, abbreviation, attributeOffsets, children⟩ => by
    unfold Build.buildPart
    split
    · exact .buildVariable answers scope block _
    · exact .ite (fun _ => .pure ()) fun _ => .buildVariable answers scope block _
    · exact .ite (fun _ => .pure ()) fun _ => .buildLabel src scope _
    · exact .bind (.openBlock src scope block _) fun inner =>
        buildParts answers scope true inner children
    · exact buildParts answers _ false block children
    · exact .pure ()

theorem buildParts (answers : Resolves d resolve resolve')
    (scope : Scope) (inBlock : Bool) (block : Option Nat) :
    (es : List Entry) → Relocates d (Build.buildParts src resolve scope inBlock block es)
      (Build.buildParts (src.relocate d) resolve' scope inBlock block es)
  | [] => .pure ()
  | e :: rest => .bind (buildPart answers scope inBlock block e) fun _ =>
    buildParts answers scope inBlock block rest

end

/-! ## Functions -/

theorem buildDeclaration (answers : Resolves d resolve resolve')
    (e : Entry) (returnType : Option SymbolId) :
    Relocates d (Build.buildDeclaration src resolve e returnType)
      (Build.buildDeclaration (src.relocate d) resolve' e returnType) :=
  .bind (.push _) fun _ => .buildParts answers _ false none e.children

theorem buildFunction (answers : Resolves d resolve resolve')
    (e : Entry) (name : String) (returnType : Option SymbolId) :
    Relocates d (Build.buildFunction src resolve e name returnType)
      (Build.buildFunction (src.relocate d) resolve' e name returnType) := by
  unfold Build.buildFunction
  rw [extent_relocate]
  dsimp only
  refine .bind (.push _) fun signature => .get_bind (fun s => ?_) fun s s' moved => ?_
  · refine .bind (.push_function name s.compiland _ _ signature) fun function => ?_
    refine .bind (.expose e function) fun _ =>
      .bind (.buildParts answers _ false none e.children) fun _ => ?_
    exact .bind (.change (.normalize function) nofun (fun _ => rfl) fun _ => rfl) fun _ =>
      .pure function
  · rw [moved.compiland]

/-- The same functions are left out. -/
theorem buildSubprogram (room : src.image.HasRoom d)
    (answers : Resolves d resolve resolve') (e : Entry) :
    Relocates d (Build.buildSubprogram src resolve e)
      (Build.buildSubprogram (src.relocate d) resolve' e) := by
  unfold Build.buildSubprogram
  rw [extent_relocate]
  dsimp only
  rw [Source.image_relocate,
    Image.isSome_thunk?_relocate room]
  refine .ite (fun _ => .pure none) fun _ => ?_
  refine .bind (.nameOf src e _) fun name => .bind (.typeOf answers e) fun returnType => ?_
  refine .ite (fun _ => ?_) fun _ => .map (.buildFunction answers e name returnType) some
  exact .bind (.buildDeclaration answers e returnType) fun _ => .pure none

end Relocates
end Build
end Dwarf2
