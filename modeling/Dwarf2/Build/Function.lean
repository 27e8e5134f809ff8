/-
Building functions and variables.

What lies in the blocks and inlined functions under a function becomes part of that
function.  Variables at fixed addresses are global wherever they are declared.
-/
import Dwarf2.Build.State
import Dwarf2.Register

namespace Dwarf2
namespace Build

/-- The register that a frame base is counted from, and how far it is from there. -/
structure Frame where
  register : Option UInt16 := none
  offset : Int64 := 0

/-- The function that variables belong to, and the signature that its parameters go to. -/
structure Scope where
  function : Option SymbolId := none
  signature : Option SymbolId := none
  frame : Frame := {}

def isParameter (e : Entry) : Bool :=
  e.tag = .formalParameter

/-- A variable that lives in a register or at an offset from it. -/
def buildLocal (scope : Scope) (block : Option Nat) (e : Entry) (name : String)
    (type : Option SymbolId) (register : Option UInt16) (deref : Bool) (offset : Int64) :
    Build Unit :=
  let l : Symbol.Local :=
    { name, block, type, deref, offset
      kind := if isParameter e then .parameter else .variable
      register := (register.map Register.toCodeView).getD Register.none }
  change fun t =>
    match scope.function with
    | some function => t.addLocal function l
    | none => t.addDetached l

def buildGlobal (src : Source) (e : Entry) (name : String) (type : Option SymbolId)
    (offset : Int64) : Build Unit := do
  let compiland := (← get).compiland
  let _ ← push (.global
    { name, compiland, type
      isStatic := !e.flag src.view .external
      address := src.image.address offset.toUInt64
      size := 0 })

/-- What a variable becomes depends on where it is.  One whose location is not known is not
recorded. -/
def buildLocated (src : Source) (scope : Scope) (block : Option Nat) (e : Entry) (name : String)
    (type : Option SymbolId) : Build Unit :=
  match e.location? src.view .location with
  | none => return ()
  | some ⟨.direct, _, offset⟩ => buildGlobal src e name type offset
  | some ⟨.frameBase, _, offset⟩ =>
    buildLocal scope block e name type scope.frame.register true (offset + scope.frame.offset)
  | some ⟨.register register, deref, offset⟩ =>
    buildLocal scope block e name type (some register) deref offset

def countParameter (scope : Scope) (e : Entry) (type : Option SymbolId) : Build Unit :=
  if isParameter e then
    match scope.signature with
    | some signature => change (·.addParameter signature type)
    | none => return ()
  else
    return ()

/-- A variable or parameter.  A parameter counts for the signature even if it is not
recorded. -/
def buildVariable (src : Source) (resolve : Resolver) (scope : Scope) (block : Option Nat)
    (e : Entry) : Build Unit := do
  let type ← typeOf src resolve e
  let name ← nameOf src e "parameter"
  buildLocated src scope block e name type
  countParameter scope e type

def buildLabel (src : Source) (scope : Scope) (e : Entry) : Build Unit := do
  let address := src.image.address ((e.unsigned? src.view .lowPc).getD 0)
  let name ← nameOf src e "label"
  match scope.function with
  | some function => change (·.addLabel function ⟨name, address⟩)
  | none => pure ()

/-- Where the code of an entry starts, and how long it is. -/
def extent (src : Source) (e : Entry) : UInt64 × UInt64 :=
  let low := (e.unsigned? src.view .lowPc).getD 0
  let high := (e.unsigned? src.view .highPc).getD 0
  (src.image.address low, Word.saturatingSub high low)

/-- The index of a new block, if there is a function to put it in. -/
def openBlock (src : Source) (scope : Scope) (parent : Option Nat) (e : Entry) :
    Build (Option Nat) :=
  let (address, length) := extent src e
  match scope.function with
  | some function => onTable (·.openBlock function ⟨address, length, parent⟩)
  | none => return none

mutual

/-- Builds what an entry adds to the function around it.  Directly in a block, parameters
are those of exception handlers and labels are not looked for. -/
def buildPart (src : Source) (resolve : Resolver) (scope : Scope) (inBlock : Bool)
    (block : Option Nat) : Entry → Build Unit
  | ⟨offset, abbreviation, attributeOffsets, children⟩ =>
    let e : Entry := ⟨offset, abbreviation, attributeOffsets, children⟩
    match abbreviation.tag with
    | .var => buildVariable src resolve scope block e
    | .formalParameter =>
      if inBlock then pure () else buildVariable src resolve scope block e
    | .label => if inBlock then pure () else buildLabel src scope e
    | .lexicalBlock => do
      let inner ← openBlock src scope block e
      buildParts src resolve scope true inner children
    | .inlinedSubroutine =>
      buildParts src resolve { scope with signature := none } false block children
    | _ => pure ()

def buildParts (src : Source) (resolve : Resolver) (scope : Scope) (inBlock : Bool)
    (block : Option Nat) : List Entry → Build Unit
  | [] => pure ()
  | e :: rest => do
    buildPart src resolve scope inBlock block e
    buildParts src resolve scope inBlock block rest

end

/-- A frame base is of use only if it is counted from a register. -/
def frameOf (src : Source) (e : Entry) : Frame :=
  match e.location? src.view .frameBase with
  | some ⟨.register register, _, offset⟩ => ⟨some register, offset⟩
  | _ => {}

/-- A signature that no function is known for. -/
def buildDeclaration (src : Source) (resolve : Resolver) (e : Entry)
    (returnType : Option SymbolId) : Build Unit := do
  let _ ← push (.signature { returnType })
  buildParts src resolve { frame := frameOf src e } false none e.children

/-- A function with its signature and body. -/
def buildFunction (src : Source) (resolve : Resolver) (e : Entry) (name : String)
    (returnType : Option SymbolId) : Build SymbolId := do
  let (address, length) := extent src e
  let signature ← push (.signature { returnType })
  let compiland := (← get).compiland
  let function ← push (.function { name, compiland, address, length, signature })
  expose e function
  buildParts src resolve ⟨some function, some signature, frameOf src e⟩ false none e.children
  change (·.normalize function)
  return function

/-- A declaration is no function, and nothing at all is built of a function inside a thunk. -/
def buildSubprogram (src : Source) (resolve : Resolver) (e : Entry) :
    Build (Option SymbolId) := do
  if (src.image.thunk? (extent src e).1).isSome then
    return none
  let name ← nameOf src e "subprogram"
  let returnType ← typeOf src resolve e
  if e.flag src.view .declaration then
    buildDeclaration src resolve e returnType
    return none
  some <$> buildFunction src resolve e name returnType

end Build
end Dwarf2
