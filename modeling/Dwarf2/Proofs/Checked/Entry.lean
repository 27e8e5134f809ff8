/-
Reading the entries of a unit with steps that may panic, and then their attributes.

Which attributes a builder asks for depends on what it has built.  But it asks for none that an
entry does not have, so `inspect` looks at all of those, and evaluates those that can be taken
for a location.
-/
import Dwarf2.Proofs.Checked.Location
import Dwarf2.Proofs.Checked.Unit

namespace Dwarf2
namespace Checked
namespace Entry

open Reader (Follows)

def readSibling? (v : UnitView) (declared : AttributeSpec) : Reader (Option Nat) :=
  if declared.name = .sibling then
    (fun r => r.2.bind AttributeValue.toReference?) <$> UnitView.readValue? v declared.form
  else
    (fun _ => none) <$> UnitView.skipValue v declared.form

def readValues (v : UnitView) : List AttributeSpec → Reader Entry.Values
  | [] => return ⟨[], none⟩
  | declared :: rest => do
    let start ← .position
    let sibling ← readSibling? v declared
    let values ← readValues v rest
    return ⟨start :: values.offsets, values.sibling <|> sibling⟩

def readHead? (v : UnitView) (abbreviations : Abbreviation.Table) :
    Reader (Option (Abbreviation × Entry.Values)) := do
  let start ← .position
  let code ← Section.unsigned v.info
  if code = 0 then
    return none
  match abbreviations.get? code with
  | none => Section.fault v.info (.undeclaredCode start code)
  | some abbreviation => return some (abbreviation, ← readValues v abbreviation.attributes)

def passGap (limit : Nat) : Option Nat → Reader Unit
  | some sibling => .advanceTo (min sibling limit)
  | none => pure ()

def readNode? (v : UnitView) (abbreviations : Abbreviation.Table) (limit : Nat)
    (forest : Reader (List Entry)) : Reader (Option Entry) := do
  let start ← .position
  if limit ≤ start then
    return none
  match ← readHead? v abbreviations with
  | none => return none
  | some (abbreviation, values) =>
    let children ← if abbreviation.hasChildren then forest else pure []
    passGap limit values.sibling
    return some ⟨start, abbreviation, values.offsets, children⟩

/-- No list of entries lies deeper than the section is long. -/
def readForest (v : UnitView) (abbreviations : Abbreviation.Table) (limit : Nat) :
    (depth : Nat) → Reader (List Entry)
  | 0 => .step (.error .endless)
  | depth + 1 =>
    .many (readNode? v abbreviations limit (readForest v abbreviations limit depth))
      (v.information.size + 1)

/-- The entries are read, and then found by their offsets. -/
def readTree (v : UnitView) (abbreviations : Abbreviation.Table) (start stop : Nat) :
    Checked (Except Error Entry.Tree) := do
  let limit := min stop v.information.size
  let _ ← readNode? v abbreviations limit
    (readForest v abbreviations limit v.information.size) start
  return Entry.Tree.read v abbreviations start stop

variable {v : UnitView} {abbreviations : Abbreviation.Table} {limit : Nat}

section

variable (h : Addressable v.info) (strings : Addressable ⟨.strings, v.order, v.strings⟩)

include h strings

theorem follows_readSibling? (declared : AttributeSpec) (start : Nat) :
    Follows (readSibling? v declared) (Dwarf2.Entry.readSibling? v declared) start :=
  .ite (fun _ => .map _ (UnitView.follows_readValue? h strings _ _)) fun _ =>
    .map _ (UnitView.follows_skipValue h _ _)

theorem follows_readValues (attributes : List AttributeSpec) (start : Nat) :
    Follows (readValues v attributes) (Dwarf2.Entry.readValues v attributes) start := by
  induction attributes generalizing start with
  | nil => exact .pure _ _
  | cons declared rest ih =>
    refine .bind (.position start) fun _ _ _ => ?_
    refine .bind (follows_readSibling? h strings declared _) fun _ _ _ => ?_
    exact .bind (ih _) fun _ _ _ => .pure _ _

theorem follows_readHead? (abbreviations : Abbreviation.Table) (start : Nat) :
    Follows (readHead? v abbreviations) (Dwarf2.Entry.readHead? v abbreviations) start := by
  refine .bind (.position start) fun _ _ _ => ?_
  refine .bind (Section.follows_unsigned h _) fun code _ _ => ?_
  refine .ite (fun _ => .pure _ _) fun _ => ?_
  cases abbreviations.get? code with
  | none => exact Section.follows_fault _ _
  | some abbreviation =>
    exact .bind (follows_readValues h strings _ _) fun _ _ _ => .pure _ _

/-- What is under an entry is read behind the byte of its code. -/
theorem follows_readNode? {forest' : Reader (List Entry)} {forest : Read (List Entry)}
    {start : Nat}
    (under : start < limit → ∀ behind, start < behind → Follows forest' forest behind) :
    Follows (readNode? v abbreviations limit forest')
      (Dwarf2.Entry.readNode? v abbreviations limit forest) start := by
  refine .bind (.position start) fun _ _ at_start => ?_
  cases at_start
  refine .ite (fun _ => .pure _ _) fun inside => ?_
  refine .bind (follows_readHead? h strings abbreviations start) fun head? behind read => ?_
  have step := Dwarf2.Entry.readHead?_progresses v abbreviations start head? behind read
  cases head? with
  | none => exact .pure _ _
  | some head =>
    obtain ⟨abbreviation, values⟩ := head
    have rest (children : List Entry) (position : Nat) : Follows
        (do
          passGap limit values.sibling
          return some (⟨start, abbreviation, values.offsets, children⟩ : Entry))
        (do
          Dwarf2.Entry.passGap limit values.sibling
          return some ⟨start, abbreviation, values.offsets, children⟩) position := by
      refine .bind ?_ fun _ _ _ => .pure _ _
      cases values.sibling with
      | none => exact .pure _ _
      | some sibling => exact .advanceTo _ _
    refine .ite (fun _ => ?_) fun _ => .bind (.pure _ _) fun children _ _ => rest children _
    exact .bind (under (Nat.not_le.1 inside) behind step.2) fun children _ _ => rest children _

theorem follows_readForest (inside : limit ≤ v.information.size) {depth start : Nat}
    (enough : v.information.size - start < depth) :
    Follows (readForest v abbreviations limit depth)
      (Dwarf2.Entry.readForest v abbreviations limit depth) start := by
  induction depth generalizing start with
  | zero => omega
  | succ depth ih =>
    refine .many _ (by omega) fun position le => ?_
    exact follows_readNode? h strings fun before behind step => ih (by omega)

theorem follows_readRoot? (abbreviations : Abbreviation.Table) {limit : Nat}
    (inside : limit ≤ v.information.size) (start : Nat) :
    Follows (readNode? v abbreviations limit (readForest v abbreviations limit v.information.size))
      (Dwarf2.Entry.readRoot? v abbreviations limit) start :=
  follows_readNode? h strings fun before behind step =>
    follows_readForest h strings inside (by omega)

theorem readTree_eq (abbreviations : Abbreviation.Table) (start stop : Nat) :
    readTree v abbreviations start stop = .ok (Entry.Tree.read v abbreviations start stop) := by
  have root := follows_readRoot? h strings abbreviations (Nat.min_le_right stop _) start
  rw [readTree, root.run_eq]
  rfl

/-- The root, read with all steps taken, is the root of the tree. -/
theorem exists_read_of_readNode? {abbreviations : Abbreviation.Table} {start stop next : Nat}
    {root : Dwarf2.Entry}
    (evaluated : readNode? v abbreviations (min stop v.information.size)
      (readForest v abbreviations (min stop v.information.size) v.information.size) start =
        .ok (.ok (some root, next))) :
    ∃ ascending, Entry.Tree.read v abbreviations start stop = .ok (.ofRoot root ascending) := by
  have follows := follows_readRoot? h strings abbreviations (Nat.min_le_right stop _) start
  have run := Except.ok.inj (follows.symm.trans evaluated)
  unfold Entry.Tree.read
  dsimp only
  split
  · rename_i failed
    cases failed.symm.trans run
  · rename_i found
    cases found.symm.trans run
    exact ⟨(Entry.ascend_readNode? (Entry.ascend_readForest _) found).pairwise, rfl⟩
  · rename_i none
    cases none.symm.trans run

end

/-! ## Attributes -/

def readAttribute (v : UnitView) (e : Entry) (name : AttributeName) :
    Checked (Except Error (Option Attribute)) :=
  match e.place? name with
  | none => return .ok none
  | some (form, offset) => do
    match ← UnitView.readValue? v form offset with
    | .error e => return .error e
    | .ok ((form, value), _) => return .ok (value.map fun value => ⟨name, form, value⟩)

/-- Reads an attribute, and evaluates it as a location up to the identifier of the register. -/
def inspectAttribute (v : UnitView) (e : Entry) (name : AttributeName) : Checked Unit := do
  match ← readAttribute v e name with
  | .ok (some a) =>
    match ← Location.ofAttribute v.order v.addressSize a with
    | .ok ⟨.register register, _, _⟩ => let _ ← Location.toCodeView register
    | _ => return ()
  | _ => return ()

/-- Looks at all attributes of all entries. -/
def inspect (v : UnitView) (root : Entry) : Checked Unit :=
  root.preorder.forM fun e =>
    e.abbreviation.attributes.forM fun declared => inspectAttribute v e declared.name

/-- A block is part of the section. -/
theorem size_of_block {s : Section} {count start stop : Nat} {bytes : Bytes}
    (read : (s.block count).run start = .ok (bytes, stop)) : bytes.size ≤ s.bytes.size := by
  rw [Dwarf2.Section.block, Dwarf2.Section.take, Read.run_ofRun] at read
  split at read
  · cases read
    rw [Array.size_extract]
    omega
  · cases read

theorem size_of_readDirect? {form : Form} {value : AttributeValue} {bytes : Bytes}
    {start stop : Nat} (read : (v.readDirect? form).run start = .ok (some value, stop))
    (block : value.toBlock? = some bytes) : bytes.size ≤ v.information.size := by
  cases form
  case block1 | block2 | block4 | block =>
    obtain ⟨count, middle, -, read⟩ := Read.run_bind_eq_ok.1 read
    obtain ⟨content, behind, taken, read⟩ := Read.run_bind_eq_ok.1 read
    cases read
    cases block
    exact size_of_block taken
  case data8 | ref8 =>
    obtain ⟨_, _, -, read⟩ := Read.run_bind_eq_ok.1 read
    cases read
  case strp =>
    obtain ⟨offset, _, -, read⟩ := Read.run_bind_eq_ok.1 read
    cases text : v.stringAt? offset.toNat <;> rw [text] at read <;> cases read
    cases block
  case indirect | unknown => cases read
  -- The others are no blocks.
  all_goals
    obtain ⟨_, _, -, read⟩ := Read.run_bind_eq_ok.1 read
    cases read
    cases block

theorem readAttribute_eq (h : Addressable v.info)
    (strings : Addressable ⟨.strings, v.order, v.strings⟩) (e : Entry) (name : AttributeName) :
    readAttribute v e name = .ok (e.readAttribute v name) := by
  unfold readAttribute Dwarf2.Entry.readAttribute
  cases e.place? name with
  | none => rfl
  | some place =>
    obtain ⟨form, offset⟩ := place
    have reads := UnitView.follows_readValue? h strings form offset
    dsimp only
    rw [reads.run_eq, ok_bind, Read.value]
    cases (v.readValue? form).run offset <;> rfl

theorem size_of_readAttribute {e : Entry} {name : AttributeName} {a : Attribute} {bytes : Bytes}
    (read : e.readAttribute v name = .ok (some a)) (block : a.value.toBlock? = some bytes) :
    bytes.size ≤ v.information.size := by
  unfold Dwarf2.Entry.readAttribute at read
  split at read
  · cases read
  · rename_i form offset _
    rw [Read.value] at read
    cases run : (v.readValue? form).run offset with
    | error e =>
      rw [run] at read
      cases read
    | ok r =>
      obtain ⟨⟨named, value?⟩, stop⟩ := r
      rw [run] at read
      cases value? with
      | none => cases read
      | some value =>
        cases read
        obtain ⟨_, _, -, direct⟩ := Read.run_bind_eq_ok.1 run
        obtain ⟨_, _, direct, same⟩ := Read.run_bind_eq_ok.1 direct
        cases same
        exact size_of_readDirect? direct block

theorem inspectAttribute_eq (h : Addressable v.info)
    (strings : Addressable ⟨.strings, v.order, v.strings⟩) (e : Entry) (name : AttributeName) :
    inspectAttribute v e name = .ok () := by
  rw [inspectAttribute, readAttribute_eq h strings, ok_bind]
  cases read : e.readAttribute v name with
  | error e => rfl
  | ok a? =>
    cases a? with
    | none => rfl
    | some a =>
      have small : ∀ bytes, a.value.toBlock? = some bytes → bytes.size < 2 ^ 64 :=
        fun bytes block => Nat.lt_of_le_of_lt (size_of_readAttribute read block) h
      dsimp only
      rw [Location.ofAttribute_eq _ _ small, ok_bind]
      split
      · rw [Location.toCodeView_eq]
        rfl
      · rfl

theorem inspect_eq (h : Addressable v.info)
    (strings : Addressable ⟨.strings, v.order, v.strings⟩) (root : Entry) :
    inspect v root = .ok () := by
  refine forM_eq (fun e => forM_eq (fun declared => ?_) _) _
  exact inspectAttribute_eq h strings e declared.name

end Entry
end Checked
end Dwarf2
