/-
How the entries of a unit are laid out.

`Layout` is an entry as an encoder writes it: what its code and its values look like, what is
under it, and the filler that its sibling passes over.  Nothing in it says where it will
stand.  `Fits` says when it may stand at a position, which only siblings depend on, since a
reference names a place.

A cursor that meets such bytes walks over them entry by entry, whatever comes behind
(`Fits.walk`).  So what is read is the tree that was laid out.
-/
import Dwarf2.Proofs.Encoding
import Dwarf2.Proofs.Entry.Proper

namespace Dwarf2
namespace Entry

/-- The bytes of a value, the form that they name in the end, and what they stand for. -/
structure Written where
  bytes : List UInt8
  form : Form
  value : Option AttributeValue

/-- The bytes are those of the value in the declared form. -/
def Written.Fits (v : UnitView) (declared : AttributeSpec) (w : Written) : Prop :=
  v.Encodes declared.form w.bytes (w.form, w.value)

/-- Where each value starts. -/
def startsFrom : Nat → List Written → List Nat
  | _, [] => []
  | start, w :: rest => start :: startsFrom (start + w.bytes.length) rest

/-- The sibling that a value tells, which only a reference can. -/
def Written.sibling? (w : Written) (declared : AttributeSpec) : Option Nat :=
  if declared.name = .sibling then w.value.bind AttributeValue.toReference? else none

/-- The last sibling of those that the values tell. -/
def siblingOf? (declared : List AttributeSpec) (values : List Written) : Option Nat :=
  ((declared.zip values).filterMap fun told => told.2.sibling? told.1).getLast?

/-- The code and the values of an entry. -/
structure Head where
  abbreviation : Abbreviation
  code : List UInt8
  values : List Written

namespace Head

def bytes (h : Head) : List UInt8 :=
  h.code ++ h.values.flatMap Written.bytes

def offsets (h : Head) (start : Nat) : List Nat :=
  startsFrom (start + h.code.length) h.values

def sibling? (h : Head) : Option Nat :=
  siblingOf? h.abbreviation.attributes h.values

/-- The code is a declared one, and there is a value of its form for each attribute. -/
structure Fits (v : UnitView) (abbreviations : Abbreviation.Table) (h : Head) : Prop where
  declared : ∃ code : UInt64, code ≠ 0 ∧ Leb128.Spells h.code code.toNat ∧
    abbreviations.get? code = some h.abbreviation
  encoded : List.Forall₂ (Written.Fits v) h.abbreviation.attributes h.values

end Head

/-- An entry with everything under it. -/
structure Layout where
  head : Head
  children : List Layout
  /-- The null code behind the children. -/
  null : List UInt8
  /-- What lies between the entry and the next item of its list. -/
  filler : List UInt8

namespace Layout

mutual

def bytes : Layout → List UInt8
  | ⟨head, children, null, _⟩ => head.bytes ++ itemBytes null children

/-- The items of a list, up to what closes it. -/
def itemBytes (null : List UInt8) : List Layout → List UInt8
  | [] => null
  | d :: rest => d.bytes ++ (d.filler ++ itemBytes null rest)

end

mutual

/-- The entry that is laid out at a position. -/
def entry (start : Nat) : Layout → Entry
  | ⟨head, children, _, _⟩ =>
    ⟨start, head.abbreviation, head.offsets start,
      entries (start + head.bytes.length) children⟩

def entries (start : Nat) : List Layout → List Entry
  | [] => []
  | d :: rest => d.entry start :: entries (start + d.bytes.length + d.filler.length) rest

end

/-- How far the sibling lies behind the end of the entry.  One that lies before it is as good as
none. -/
def gap (d : Layout) (stop : Nat) : Nat :=
  match d.head.sibling? with
  | some target => target - stop
  | none => 0

mutual

/-- The entry may stand at that position. -/
inductive Fits (v : UnitView) (abbreviations : Abbreviation.Table) : Nat → Layout → Prop
  | leaf {start : Nat} {head : Head} {filler : List UInt8} (fits : head.Fits v abbreviations)
      (childless : head.abbreviation.hasChildren = false) :
      Fits v abbreviations start ⟨head, [], [], filler⟩
  | parent {start : Nat} {head : Head} {children : List Layout} {null filler : List UInt8}
      (fits : head.Fits v abbreviations) (has_children : head.abbreviation.hasChildren = true)
      (below : FitsAll v abbreviations (start + head.bytes.length) children)
      (closed : Leb128.Spells null 0) : Fits v abbreviations start ⟨head, children, null, filler⟩

/-- A sibling that lies ahead is the next item, behind nothing but filler. -/
inductive FitsAll (v : UnitView) (abbreviations : Abbreviation.Table) :
    Nat → List Layout → Prop
  | nil {start : Nat} : FitsAll v abbreviations start []
  | cons {start : Nat} {d : Layout} {rest : List Layout} (first : Fits v abbreviations start d)
      (apart : d.filler.length = d.gap (start + d.bytes.length))
      (behind : FitsAll v abbreviations (start + d.bytes.length + d.filler.length) rest) :
      FitsAll v abbreviations start (d :: rest)

end

end Layout

variable {v : UnitView} {abbreviations : Abbreviation.Table} {limit : Nat}

/-! ## Heads -/

theorem siblingOf?_cons (declared : AttributeSpec) (rest : List AttributeSpec) (w : Written)
    (values : List Written) :
    siblingOf? (declared :: rest) (w :: values) =
      (siblingOf? rest values <|> w.sibling? declared) := by
  unfold siblingOf?
  rw [List.zip_cons_cons]
  cases told : w.sibling? declared with
  | none =>
    rw [List.filterMap_cons_none (by exact told)]
    cases List.getLast? _ <;> rfl
  | some target =>
    rw [List.filterMap_cons_some (by exact told), List.getLast?_cons]
    cases List.getLast? _ <;> rfl

theorem reads_readSibling? {declared : AttributeSpec} {w : Written}
    (addressable : 1 ≤ v.addressSize ∧ v.addressSize ≤ 8)
    (encoded : w.Fits v declared) :
    v.info.Reads (readSibling? v declared) (w.sibling? declared) w.bytes := by
  unfold readSibling? Written.sibling?
  split
  · exact (UnitView.reads_readValue? addressable encoded).map _
  · exact (UnitView.reads_skipValue addressable encoded).map _

theorem run_readValues {declared : List AttributeSpec} {values : List Written} {start : Nat}
    (addressable : 1 ≤ v.addressSize ∧ v.addressSize ≤ 8)
    (encoded : List.Forall₂ (Written.Fits v) declared values)
    (there : v.information.Holds start (values.flatMap Written.bytes)) :
    (readValues v declared).run start =
      .ok (⟨startsFrom start values, siblingOf? declared values⟩,
        start + (values.flatMap Written.bytes).length) := by
  induction encoded generalizing start with
  | nil => rfl
  | @cons declared w rest values first _ ih =>
    rw [List.flatMap_cons] at there
    simp only [readValues, Read.run_bind_eq_ok]
    refine ⟨start, start, rfl, _, _, reads_readSibling? addressable first start there.left,
      _, _, ih there.right, ?_⟩
    rw [siblingOf?_cons, List.flatMap_cons, List.length_append, Nat.add_assoc]
    rfl

theorem Head.Fits.run_readHead? {h : Head} (fits : h.Fits v abbreviations) {start : Nat}
    (addressable : 1 ≤ v.addressSize ∧ v.addressSize ≤ 8)
    (there : v.information.Holds start h.bytes) :
    (readHead? v abbreviations).run start =
      .ok (some (h.abbreviation, ⟨h.offsets start, h.sibling?⟩), start + h.bytes.length) := by
  obtain ⟨code, nonnull, spelled, declared⟩ := fits.declared
  have read := Section.reads_unsigned (s := v.info) spelled start there.left
  have values := run_readValues addressable fits.encoded there.right
  rw [Head.bytes, List.length_append, ← Nat.add_assoc]
  exact run_readHead?_eq_some.2 ⟨code, _, read, nonnull, declared, values⟩

theorem Head.Fits.length_pos {h : Head} (fits : h.Fits v abbreviations) : 0 < h.bytes.length := by
  obtain ⟨code, -, spelled, -⟩ := fits.declared
  rw [Head.bytes, List.length_append]
  exact Nat.add_pos_left spelled.1.length_pos _

theorem run_readHead?_null {null : List UInt8} (closed : Leb128.Spells null 0) {start : Nat}
    (there : v.information.Holds start null) :
    (readHead? v abbreviations).run start = .ok (none, start + null.length) := by
  have read := Section.reads_unsigned (s := v.info) (n := 0) closed start there
  rw [readHead?, Read.run_bind_eq_ok]
  refine ⟨start, start, rfl, ?_⟩
  rw [Read.run_bind_eq_ok]
  exact ⟨0, _, read, rfl⟩

/-! ## The walk over a layout -/

namespace Layout

/-- The cursor is put behind the filler.  It is not held back at the end of the unit, since the
next item of the list lies before that. -/
theorem jump_sibling {d : Layout} {stop : Nat} (apart : d.filler.length = d.gap stop)
    (inside : stop + d.filler.length ≤ limit) :
    jump limit d.head.sibling? stop = stop + d.filler.length := by
  unfold gap at apart
  unfold jump
  cases told : d.head.sibling? with
  | none =>
    simp only [told] at apart
    rw [apart]
    rfl
  | some target =>
    simp only [told] at apart
    dsimp only
    split <;> omega

mutual

/-- The cursor finds the entry that was laid out, and then goes where its sibling is. -/
theorem Fits.walk {start : Nat} {d : Layout}
    (addressable : 1 ≤ v.addressSize ∧ v.addressSize ≤ 8) :
    Fits v abbreviations start d → v.information.Holds start d.bytes →
      start + d.bytes.length ≤ limit →
      Walk v abbreviations limit start
        (.ok (some (d.entry start), jump limit d.head.sibling? (start + d.bytes.length)))
  | .leaf fits childless, there, inside => by
    have read := fits.run_readHead? addressable there.left
    have nonempty := fits.length_pos
    simp only [bytes, itemBytes, List.append_nil] at inside ⊢
    exact .leaf (by omega) read childless
  | .parent fits has_children below closed, there, inside => by
    have read := fits.run_readHead? addressable there.left
    have nonempty := fits.length_pos
    simp only [bytes, List.length_append, ← Nat.add_assoc] at inside ⊢
    have walk := below.walk addressable closed there.right inside
    exact .parent (by omega) read has_children walk

theorem FitsAll.walk {start : Nat} {ds : List Layout} {null : List UInt8}
    (addressable : 1 ≤ v.addressSize ∧ v.addressSize ≤ 8) (closed : Leb128.Spells null 0) :
    FitsAll v abbreviations start ds → v.information.Holds start (itemBytes null ds) →
      start + (itemBytes null ds).length ≤ limit →
      WalkAll v abbreviations limit start
        (.ok (entries start ds, start + (itemBytes null ds).length))
  | .nil, there, inside => by
    have nonempty := closed.1.length_pos
    simp only [itemBytes] at inside
    exact .done (.null (by omega) (run_readHead?_null closed there))
  | .cons first apart behind, there, inside => by
    simp only [itemBytes, List.length_append, ← Nat.add_assoc] at inside ⊢
    have walk := first.walk addressable there.left (by omega)
    rw [jump_sibling apart (by omega)] at walk
    exact .more walk (behind.walk addressable closed there.right.right inside)

end

end Layout

/-- Wherever it stands in the unit, and whatever stands around it, the tree that was laid out is
the one that is read.  Nothing but its entries is found in it. -/
theorem read_layout {d : Layout} {start stop : Nat}
    (addressable : 1 ≤ v.addressSize ∧ v.addressSize ≤ 8) (fits : d.Fits v abbreviations start)
    (there : v.information.Holds start d.bytes) (inside : start + d.bytes.length ≤ stop) :
    ∃ t, Tree.read v abbreviations start stop = .ok t ∧ t.root = d.entry start ∧
      (∀ offset e, t.get? offset = some e ↔
        e ∈ (d.entry start).preorder ∧ e.offset = offset) ∧
      t.size = (d.entry start).preorder.length := by
  have within : start + d.bytes.length ≤ min stop v.information.size :=
    Nat.le_min.2 ⟨inside, there.le_size⟩
  have root := read_of_walk (fits.walk addressable there within)
  cases read : Tree.read v abbreviations start stop with
  | error e =>
    rw [read] at root
    cases root
  | ok t =>
    rw [read] at root
    have root : t.root = d.entry start := Except.ok.inj root
    have distinct := (ascending_of_read read).imp Nat.ne_of_lt
    refine ⟨t, rfl, root, fun offset e => ?_, ?_⟩
    · rw [Tree.get?_eq_some, root]
    · rw [t.size_eq distinct, root]

/-! A structure that tells its sibling, two bytes of filler, and the sibling. -/

namespace Filled

def unit : Abbreviation := ⟨1, .compileUnit, true, [⟨.name, .string⟩]⟩
def record : Abbreviation := ⟨2, .structureType, true, [⟨.sibling, .ref4⟩]⟩
def number : Abbreviation := ⟨3, .baseType, false, [⟨.byteSize, .data1⟩]⟩

def shapes : Abbreviation.Table :=
  .ofDeclarations [unit, record, number]

theorem get?_shapes : shapes.get? 1 = some unit ∧ shapes.get? 2 = some record ∧
    shapes.get? 3 = some number := by
  simp only [shapes, Abbreviation.Table.get?, Abbreviation.Table.ofDeclarations,
    List.foldl_cons, List.foldl_nil, Std.HashMap.getElem?_insert]
  exact ⟨rfl, rfl, rfl⟩

def unitHead : Head :=
  ⟨unit, [0x81, 0], [⟨[0x61, 0], .string, some (.string #[0x61])⟩]⟩

def recordHead : Head :=
  ⟨record, [2], [⟨[24, 0, 0, 0], .ref4, some (.reference 24)⟩]⟩

def numberHead : Head :=
  ⟨number, [3], [⟨[4], .data1, some (.unsigned 4)⟩]⟩

/-- The unit starts at offset 11, so that the number is at offset 24. -/
def layout : Layout where
  head := unitHead
  children := [⟨recordHead, [], [0x80, 0], [0x7f, 0x7f]⟩, ⟨numberHead, [], [], []⟩]
  null := [0]
  filler := []

def view : UnitView where
  order := .little
  information := (List.replicate 11 0 ++ layout.bytes ++ [0x7f]).toArray
  strings := #[]
  base := 0
  addressSize := 4

theorem unitHead_fits : unitHead.Fits view shapes := by
  have inner : 0 ∉ [(0x61 : UInt8)] := by decide
  exact ⟨⟨1, by decide, ⟨.cons rfl (.single rfl), rfl⟩, get?_shapes.1⟩,
    .cons (.direct (.string inner)) .nil⟩

theorem recordHead_fits : recordHead.Fits view shapes :=
  ⟨⟨2, by decide, ⟨.single rfl, rfl⟩, get?_shapes.2.1⟩,
    .cons (.direct (.reference (n := 24) rfl rfl)) .nil⟩

theorem numberHead_fits : numberHead.Fits view shapes :=
  ⟨⟨3, by decide, ⟨.single rfl, rfl⟩, get?_shapes.2.2⟩,
    .cons (.direct (.number (n := 4) rfl rfl)) .nil⟩

theorem layout_fits : layout.Fits view shapes 11 := by
  have null : Leb128.Spells [0] 0 := ⟨.single rfl, rfl⟩
  have padded : Leb128.Spells [0x80, 0] 0 := ⟨.cons rfl (.single rfl), rfl⟩
  refine .parent unitHead_fits rfl (.cons ?_ rfl (.cons ?_ rfl .nil)) null
  · exact .parent recordHead_fits rfl .nil padded
  · exact .leaf numberHead_fits rfl

end Filled

theorem read_filled_layout :
    ∃ t, Tree.read Filled.view Filled.shapes 11 27 = .ok t ∧
      t.root = ⟨11, Filled.unit, [13],
        [⟨15, Filled.record, [16], []⟩, ⟨24, Filled.number, [25], []⟩]⟩ ∧
      t.size = 3 := by
  have there : Filled.view.information.Holds 11 Filled.layout.bytes :=
    ⟨List.replicate 11 0, [0x7f], rfl, rfl⟩
  have inside : 11 + Filled.layout.bytes.length ≤ 27 := by decide
  obtain ⟨t, read, root, -, size⟩ :=
    read_layout (v := Filled.view) (by decide) Filled.layout_fits there inside
  exact ⟨t, read, root, size⟩

end Entry
end Dwarf2
