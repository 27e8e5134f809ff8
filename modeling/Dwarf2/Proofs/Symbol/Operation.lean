/-
The operations on a symbol table, as data.

A table is used by doing one thing after another to it, so what holds however it is used is
said of `after`, for every list of operations.  No operation asks who gave out the identifiers
that it is called with: they may stand for a symbol of another kind or for none at all.

`Effect` tells once what an operation can do to the symbols and to the index, and the properties
of whole runs are proved from it.
-/
import Dwarf2.Proofs.Symbol.Table

namespace Dwarf2
namespace Symbol

/-- What lines are given to: where the code of a function is, and the lines that it has. -/
structure Code where
  address : UInt64
  length : UInt64
  lines : List LineFact
deriving DecidableEq, Repr

def Function.code (f : Function) : Code :=
  ⟨f.address, f.length, f.lines⟩

def code? : Symbol → Option Code
  | function f => some f.code
  | _ => none

theorem code?_eq_some {x : Symbol} {c : Code} (h : x.code? = some c) :
    ∃ f, x = .function f ∧ f.code = c := by
  cases x with
  | function f => exact ⟨f, rfl, Option.some.inj h⟩
  | _ => cases h

namespace Table

def address? (t : Table) (id : SymbolId) : Option UInt64 :=
  (t.get? id).bind Symbol.address?

inductive Operation
  | reserve
  | fill (id : SymbolId) (x : Symbol)
  | newCompiland (source : SourceId)
  | newBaseType (b : BaseType)
  | newAggregate (name : String) (kind : AggregateKind) (size : UInt64)
  | newEnumeration (name : String) (size : UInt64)
  | newSignature (returnType : Option SymbolId) (convention : Convention)
  | newFunction (name : String) (unit : Option SymbolId) (address length : UInt64)
      (type : SymbolId)
  | newGlobal (g : Global)
  | addMember (id : SymbolId) (m : Member)
  | addEnumerator (id : SymbolId) (e : Enumerator)
  | addParameter (id : SymbolId) (type : Option SymbolId)
  | addLocal (id : SymbolId) (l : Local)
  | addDetached (l : Local)
  | openBlock (id : SymbolId) (b : Block)
  | addLabel (id : SymbolId) (l : Label)
  | normalize (id : SymbolId)
  | addLine (source : SourceId) (line address : UInt64)
  | internFile (directory : Option String) (name : String)
  | offer (capabilities : Capabilities)
deriving DecidableEq, Repr

namespace Operation

/-- The symbol that the operation makes, as it is in the beginning. -/
def new? : Operation → Option Symbol
  | reserve => some .placeholder
  | newCompiland source => some (.compiland source)
  | newBaseType b => some (.baseType b)
  | newAggregate name kind size => some (.aggregate { name, kind, size })
  | newEnumeration name size => some (.enumeration { name, size })
  | newSignature returnType convention => some (.signature { returnType, convention })
  | newFunction name unit address length type =>
    some (.function { name, compiland := unit, address, length, signature := type })
  | newGlobal g => some (.global g)
  | _ => none

def perform (t : Table) : Operation → Table
  | fill id x => t.fill id x
  | addMember id m => t.addMember id m
  | addEnumerator id e => t.addEnumerator id e
  | addParameter id type => t.addParameter id type
  | addLocal id l => t.addLocal id l
  | addDetached l => t.addDetached l
  | openBlock id b => (t.openBlock id b).2
  | addLabel id l => t.addLabel id l
  | normalize id => t.normalize id
  | addLine source line address => (t.addLine source line address).2
  | internFile directory name => (t.internFile directory name).2
  | offer capabilities => { t with capabilities }
  | op =>
    match op.new? with
    | some x => (t.push x).2
    | none => t

/-- What an operation can do to the symbols and to the index.  Parts are added without a change
to what is known of the code. -/
inductive Effect (t : Table) : Operation → Table → Prop
  | push {op : Operation} {x : Symbol} (new : op.new? = some x) : Effect t op (t.push x).2
  | fill (id : SymbolId) (x : Symbol) : Effect t (.fill id x) (t.fill id x)
  | change {op : Operation} {id : SymbolId} {f : Symbol → Symbol}
      (address : ∀ x, (f x).address? = x.address?) (code : ∀ x, (f x).code? = x.code?) :
      Effect t op (t.update id f)
  | attach (source : SourceId) (line address : UInt64) :
      Effect t (.addLine source line address) (t.addLine source line address).2
  | beside {op : Operation} {u : Table} (symbols : u.symbols = t.symbols)
      (addresses : u.addresses = t.addresses) : Effect t op u

namespace Effect

variable {t : Table} {op : Operation} {id : SymbolId}

theorem updateFunction {f : Function → Function} (address : ∀ g, (f g).address = g.address)
    (code : ∀ g, (f g).code = g.code) : Effect t op (t.updateFunction id f) :=
  .change
    (fun x => by
      cases x with
      | function g => exact congrArg some (address g)
      | _ => rfl)
    (fun x => by
      cases x with
      | function g => exact congrArg some (code g)
      | _ => rfl)

theorem openBlock (id : SymbolId) (b : Block) : Effect t op (t.openBlock id b).2 := by
  unfold Table.openBlock
  split
  · exact .updateFunction (fun _ => rfl) fun _ => rfl
  · exact .beside rfl rfl

theorem internFile (directory : Option String) (name : String) :
    Effect t op (t.internFile directory name).2 :=
  .beside rfl rfl

end Effect

theorem effect (t : Table) (op : Operation) : op.Effect t (op.perform t) := by
  cases op with
  | fill id x => exact .fill id x
  | addMember id m | addEnumerator id e | addParameter id type =>
    exact .change (fun x => by cases x <;> rfl) (fun x => by cases x <;> rfl)
  | addLocal id l => exact .updateFunction (fun _ => rfl) fun _ => rfl
  | addLabel id l => exact .updateFunction (fun _ => rfl) fun _ => rfl
  | normalize id => exact .updateFunction (fun _ => rfl) fun _ => rfl
  | openBlock id b => exact .openBlock id b
  | addLine source line address => exact .attach source line address
  | internFile directory name => exact .internFile directory name
  | addDetached | offer => exact .beside rfl rfl
  | _ =>
    show Effect t _ (t.push _).2
    exact .push rfl

end Operation

/-- The table after some operations, the first of them first. -/
def after (t : Table) (operations : List Operation) : Table :=
  operations.foldl Operation.perform t

theorem after_append (t : Table) (first second : List Operation) :
    t.after (first ++ second) = (t.after first).after second :=
  List.foldl_append

/-- What every operation keeps holds after any of them. -/
theorem after_induction {P : Table → Prop} (step : ∀ t op, P t → P (Operation.perform t op))
    {t : Table} (start : P t) (operations : List Operation) : P (t.after operations) :=
  List.foldlRecOn operations _ start fun t h op _ => step t op h

end Table
end Symbol
end Dwarf2
