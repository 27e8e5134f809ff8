/-
Entries: the nodes of the tree that describes a unit.
-/
import Dwarf2.Abbreviation
import Dwarf2.Location
import Dwarf2.UnitView

namespace Dwarf2

/-- An entry with everything under it.  The values of its attributes stay in the section;
the entry knows where each starts. -/
structure Entry where
  offset : Nat
  abbreviation : Abbreviation
  attributeOffsets : List Nat
  children : List Entry

namespace Entry

def tag (e : Entry) : Tag :=
  e.abbreviation.tag

mutual

/-- The entry and everything under it, each entry before its children. -/
def preorder : Entry → List Entry
  | ⟨offset, abbreviation, attributeOffsets, children⟩ =>
    ⟨offset, abbreviation, attributeOffsets, children⟩ :: preorderAll children

def preorderAll : List Entry → List Entry
  | [] => []
  | e :: rest => e.preorder ++ preorderAll rest

end

theorem mem_preorder (e : Entry) : e ∈ e.preorder := by
  obtain ⟨offset, abbreviation, attributeOffsets, children⟩ := e
  exact List.mem_cons_self

theorem mem_preorderAll {e : Entry} {es : List Entry} :
    e ∈ preorderAll es ↔ ∃ top ∈ es, e ∈ top.preorder := by
  induction es with
  | nil => simp [preorderAll]
  | cons first rest ih => simp [preorderAll, ih]

theorem mem_preorder_of_under {e d : Entry} (h : d ∈ preorderAll e.children) :
    d ∈ e.preorder := by
  obtain ⟨offset, abbreviation, attributeOffsets, children⟩ := e
  exact List.mem_cons_of_mem _ h

theorem mem_preorder_of_mem_children {e c : Entry} (h : c ∈ e.children) : c ∈ e.preorder :=
  mem_preorder_of_under (mem_preorderAll.2 ⟨c, h, c.mem_preorder⟩)

mutual

/-- Visits the entries in preorder. -/
def fold {β : Type} (f : β → Entry → β) (init : β) : Entry → β
  | ⟨offset, abbreviation, attributeOffsets, children⟩ =>
    foldAll f (f init ⟨offset, abbreviation, attributeOffsets, children⟩) children

def foldAll {β : Type} (f : β → Entry → β) (init : β) : List Entry → β
  | [] => init
  | e :: rest => foldAll f (e.fold f init) rest

end

mutual

theorem fold_eq {β : Type} (f : β → Entry → β) (init : β) :
    (e : Entry) → e.fold f init = e.preorder.foldl f init
  | ⟨_, _, _, children⟩ => by simp [fold, preorder, foldAll_eq f _ children]

theorem foldAll_eq {β : Type} (f : β → Entry → β) (init : β) :
    (es : List Entry) → foldAll f init es = (preorderAll es).foldl f init
  | [] => rfl
  | e :: rest => by simp [foldAll, preorderAll, fold_eq f init e, foldAll_eq f _ rest]

end

/-- The first attribute of that name: its form and where its value starts. -/
def place? (e : Entry) (name : AttributeName) : Option (Form × Nat) :=
  (e.abbreviation.attributes.zip e.attributeOffsets).find? (·.1.name = name)
    |>.map fun (declared, offset) => (declared.form, offset)

/-- The attribute of that name, or none if the entry has none or its value cannot be
represented. -/
def readAttribute (v : UnitView) (e : Entry) (name : AttributeName) :
    Except Error (Option Attribute) :=
  match e.place? name with
  | none => .ok none
  | some (form, offset) =>
    (v.readValue? form).value offset |>.map fun (form, value) =>
      value.map fun value => ⟨name, form, value⟩

/-- An attribute that cannot be read counts as absent. -/
def attribute? (v : UnitView) (e : Entry) (name : AttributeName) : Option Attribute :=
  match e.readAttribute v name with
  | .ok found => found
  | .error _ => none

def value? (v : UnitView) (e : Entry) (name : AttributeName) : Option AttributeValue :=
  (e.attribute? v name).map Attribute.value

def unsigned? (v : UnitView) (e : Entry) (name : AttributeName) : Option UInt64 :=
  (e.value? v name).bind AttributeValue.toUnsigned?

def signed? (v : UnitView) (e : Entry) (name : AttributeName) : Option Int64 :=
  (e.value? v name).bind AttributeValue.toSigned?

def flag (v : UnitView) (e : Entry) (name : AttributeName) : Bool :=
  (e.unsigned? v name).getD 0 ≠ 0

def text? (v : UnitView) (e : Entry) (name : AttributeName) : Option String :=
  (e.value? v name).bind AttributeValue.toText?

def reference? (v : UnitView) (e : Entry) (name : AttributeName) : Option Nat :=
  (e.value? v name).bind AttributeValue.toReference?

/-- A location that cannot be evaluated counts as absent. -/
def location? (v : UnitView) (e : Entry) (name : AttributeName) : Option Location :=
  (e.attribute? v name).bind fun a =>
    (Location.ofAttribute v.order v.addressSize a).toOption

end Entry
end Dwarf2
