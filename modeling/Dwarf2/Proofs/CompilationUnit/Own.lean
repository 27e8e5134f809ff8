/-
The bytes of a unit and the bytes around it.

A unit says how long it is, and no entry is looked for behind its end.  But the values of an entry,
and its code, are taken from the section and not from the unit, and so they may run over that end.
A unit that does not run out of its own bytes is told by them alone: `readTree_of_between`.
-/
import Dwarf2.CompilationUnit
import Dwarf2.Proofs.Entry.Continued

namespace Dwarf2

namespace CompilationUnit

/-- The sections, up to the end of the unit. -/
def Header.own (h : Header) (sections : Sections) : Sections :=
  { sections with information := sections.information.extract 0 h.nextOffset }

variable {sections : Sections} {information : Bytes} {h : Header}

theorem size_own (h : Header) (sections : Sections) :
    (h.own sections).information.size = min h.nextOffset sections.information.size := by
  rw [Header.own, Array.size_extract, Nat.sub_zero]

theorem continues_own (size : information.size = sections.information.size)
    (same : information.between h.offset h.nextOffset =
      sections.information.between h.offset h.nextOffset) :
    (viewOf (h.own sections) h).Continues information h.offset := by
  have inside : (h.own sections).information.size ≤ information.size := by
    rw [size_own, size]
    exact Nat.min_le_right _ _
  have bytes : information.between h.offset (h.own sections).information.size =
      (h.own sections).information.between h.offset (h.own sections).information.size := by
    rw [Bytes.between_size, size_own, ← size, Bytes.between_min, same, Header.own,
      Bytes.rest_extract]
  exact ⟨rfl, bytes, Nat.le_refl _, inside⟩

theorem readTree_continued (size : information.size = sections.information.size)
    (same : information.between h.offset h.nextOffset =
      sections.information.between h.offset h.nextOffset)
    {abbreviations : Abbreviation.Table}
    (enough : ¬RanOut (readTree (h.own sections) h abbreviations)) :
    readTree { sections with information } h abbreviations =
      readTree (h.own sections) h abbreviations := by
  have first : h.offset ≤ h.entries := Nat.le_add_right _ _
  have limit : min h.nextOffset information.size =
      min h.nextOffset (viewOf (h.own sections) h).information.size := by
    change _ = min h.nextOffset (h.own sections).information.size
    rw [size_own, size]
    omega
  have read := Entry.Tree.read_continued (continues_own size same) first limit enough
  exact read

/-- A unit that does not run out of bytes before it ends is the same unit in every section that has
its bytes: the tree is the same, or the fault is, and so are the values of all entries. -/
theorem readTree_of_between (size : information.size = sections.information.size)
    (same : information.between h.offset h.nextOffset =
      sections.information.between h.offset h.nextOffset)
    (abbreviations : Abbreviation.Table)
    (enough : ¬RanOut (readTree (h.own sections) h abbreviations)) :
    let sections' : Sections := { sections with information }
    readTree sections h abbreviations = readTree (h.own sections) h abbreviations ∧
      readTree sections' h abbreviations = readTree (h.own sections) h abbreviations ∧
      ∀ t, readTree sections h abbreviations = .ok t → ∀ e ∈ t.root.preorder,
        (∀ (i : Nat) (spec : AttributeSpec) (offset : Nat),
          e.abbreviation.attributes[i]? = some spec → e.attributeOffsets[i]? = some offset →
          ((viewOf sections' h).readValue? spec.form).run offset =
            ((viewOf sections h).readValue? spec.form).run offset) ∧
        ∀ name, e.readAttribute (viewOf sections' h) name =
          e.readAttribute (viewOf sections h) name := by
  intro sections'
  have here : (viewOf (h.own sections) h).Continues sections.information h.offset :=
    continues_own rfl rfl
  have there : (viewOf (h.own sections) h).Continues information h.offset :=
    continues_own size same
  have read : readTree sections h abbreviations = readTree (h.own sections) h abbreviations :=
    readTree_continued rfl rfl enough
  refine ⟨read, readTree_continued size same enough, fun t told e mem => ?_⟩
  have own : readTree (h.own sections) h abbreviations = .ok t := read.symm.trans told
  obtain ⟨le, passable⟩ := Entry.passable_of_read own mem
  have le : h.offset ≤ e.offset := Nat.le_trans (Nat.le_add_right _ _) le
  refine ⟨fun i spec offset declared placed => ?_, fun name => ?_⟩
  · have value := Entry.readValue?_continued here passable le declared placed
    have value' := Entry.readValue?_continued there passable le declared placed
    exact value'.trans value.symm
  · have value := Entry.readAttribute_continued here passable le name
    have value' := Entry.readAttribute_continued there passable le name
    exact value'.trans value.symm

/-! A unit of three entries, with a byte behind it. -/

namespace Followed

/-- The unit has the bytes up to offset 28. -/
def header : Header := ⟨0, 24, 2, 0, 4⟩

def file (behind : UInt8) : Sections where
  order := .little
  information := Entry.Filled.view.information.push behind
  abbreviations := #[]
  strings := #[]
  lines := #[]

theorem readTree_own : ∃ t, readTree (header.own (file 0)) header Entry.Filled.shapes = .ok t ∧
    t.size = 3 := by
  have cut : viewOf (header.own (file 0)) header = Entry.Filled.view := rfl
  have there : Entry.Filled.view.information.Holds 11 Entry.Filled.layout.bytes :=
    ⟨List.replicate 11 0, [0x7f], rfl, rfl⟩
  have inside : 11 + Entry.Filled.layout.bytes.length ≤ 28 := by decide
  obtain ⟨t, read, -, -, size⟩ :=
    Entry.read_layout (v := Entry.Filled.view) (by decide) Entry.Filled.layout_fits there inside
  rw [readTree, cut]
  exact ⟨t, read, size⟩

end Followed

/-- The three entries are there, with their values, whatever the byte is. -/
theorem readTree_of_between_followed :
    (Followed.file 1).information.size = (Followed.file 0).information.size ∧
      (Followed.file 1).information.between 0 28 = (Followed.file 0).information.between 0 28 ∧
      ¬RanOut (readTree (Followed.header.own (Followed.file 0)) Followed.header
        Entry.Filled.shapes) ∧
      ∃ t, t.size = 3 ∧
        readTree (Followed.file 0) Followed.header Entry.Filled.shapes = .ok t ∧
        readTree (Followed.file 1) Followed.header Entry.Filled.shapes = .ok t ∧
        ∀ e ∈ t.root.preorder, ∀ name,
          e.readAttribute (viewOf (Followed.file 1) Followed.header) name =
            e.readAttribute (viewOf (Followed.file 0) Followed.header) name := by
  obtain ⟨t, own, size⟩ := Followed.readTree_own
  have length : (Followed.file 1).information.size = (Followed.file 0).information.size := rfl
  have same : (Followed.file 1).information.between 0 28 =
      (Followed.file 0).information.between 0 28 := rfl
  have enough : ¬RanOut (readTree (Followed.header.own (Followed.file 0)) Followed.header
      Entry.Filled.shapes) := by
    rw [own]
    exact RanOut.not_ok t
  obtain ⟨here, there, values⟩ := readTree_of_between (h := Followed.header) length same _ enough
  have read := here.trans own
  exact ⟨length, same, enough, t, size, read, there.trans own,
    fun e mem => (values t read e mem).2⟩

/-! A unit with one byte behind its header: the code of its root, or the first group of it. -/

namespace Straddling

def shape : Abbreviation := ⟨1, .compileUnit, false, []⟩

def shapes : Abbreviation.Table :=
  .ofDeclarations [shape]

theorem get?_shapes : shapes.get? 1 = some shape := by
  simp only [shapes, Abbreviation.Table.get?, Abbreviation.Table.ofDeclarations,
    List.foldl_cons, List.foldl_nil, Std.HashMap.getElem?_insert]
  rfl

/-- The unit ends at offset 12. -/
def header : Header := ⟨0, 8, 2, 0, 4⟩

/-- The header, and what comes behind it. -/
def file (behind : List UInt8) : Sections where
  order := .little
  information := ([8, 0, 0, 0, 2, 0, 0, 0, 0, 0, 4] ++ behind).toArray
  abbreviations := #[1, 0x11, 0, 0, 0, 0]
  strings := #[]
  lines := #[]

def root : Entry := ⟨11, shape, [], []⟩

theorem lt_limit {behind : List UInt8} (further : behind ≠ []) :
    11 < min header.nextOffset (file behind).information.size := by
  have size : (file behind).information.size = 11 + behind.length := by
    simp only [file, List.size_toArray, List.length_append]
    rfl
  have next : header.nextOffset = 12 := rfl
  have := List.length_pos_of_ne_nil further
  omega

/-- The root is read, also where its code goes over the end of the unit. -/
theorem readTree_code {code : List UInt8} (spelled : Leb128.Spells code 1) (nonempty : code ≠ []) :
    (readTree (file code) header shapes).map Entry.Tree.root = .ok root := by
  have there : (file code).information.Holds 11 code :=
    ⟨[8, 0, 0, 0, 2, 0, 0, 0, 0, 0, 4], [], rfl, by simp [file]⟩
  have read := Section.reads_unsigned (s := (viewOf (file code) header).info) (n := 1) spelled 11
    there
  have head := Entry.run_readHead?_eq_some.2 ⟨1, _, read, by decide, get?_shapes, rfl⟩
  exact Entry.read_of_walk (.leaf (lt_limit nonempty) head rfl)

/-- There is no root where its code does not end. -/
theorem readTree_endless :
    (readTree (file [0x81, 0x80]) header shapes).map Entry.Tree.root =
      .error (.malformed .information (.truncated 11 .leb128)) := by
  have endless : Leb128.last? (file [0x81, 0x80]).information 11 = none := by
    apply Bytes.indexFrom?_eq_none
    change ∀ byte ∈ [0x81, 0x80], Leb128.isLast byte = false
    exact List.forall_mem_cons.2 ⟨rfl, List.forall_mem_singleton.2 rfl⟩
  have groups : (viewOf (file [0x81, 0x80]) header).info.leb128.run 11 =
      .error (.malformed .information (.truncated 11 .leb128)) := by
    rw [Section.leb128, Read.run_ofRun]
    simp only [UnitView.info, viewOf, endless]
  have head : (Entry.readHead? (viewOf (file [0x81, 0x80]) header) shapes).run 11 =
      .error (.malformed .information (.truncated 11 .leb128)) := by
    simp only [Entry.readHead?, Section.unsigned, Read.run_bind, Read.run_position, Read.run_map,
      Except.bind, groups, Except.map]
  exact Entry.read_of_walk (.unreadable (lt_limit (List.cons_ne_nil _ _)) head)

end Straddling

/-- The code of the root has its last group behind the unit, and that group decides whether the unit
can be read at all. -/
theorem readTree_straddles :
    let sections := Straddling.file [0x81, 0]
    let sections' := Straddling.file [0x81, 0x80]
    sections.information.size = sections'.information.size ∧
      sections.information.between 0 12 = sections'.information.between 0 12 ∧
      Straddling.header.nextOffset = 12 ∧
      (readTree sections Straddling.header Straddling.shapes).map Entry.Tree.root =
        .ok Straddling.root ∧
      (readTree sections' Straddling.header Straddling.shapes).map Entry.Tree.root =
        .error (.malformed .information (.truncated 11 .leb128)) := by
  have code : Leb128.Spells [0x81, 0] 1 := ⟨.cons rfl (.single rfl), rfl⟩
  exact ⟨rfl, rfl, rfl, Straddling.readTree_code code (List.cons_ne_nil _ _),
    Straddling.readTree_endless⟩

end CompilationUnit
end Dwarf2
