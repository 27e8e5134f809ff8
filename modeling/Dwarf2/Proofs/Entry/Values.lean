/-
Where the values of an entry are.

A tree keeps no values, only where each of them starts.  The values were passed over when the
tree was read, and `Chained` says what that leaves: every one of them goes on from the offset
that was kept for it to the offset of the next.  So any of them can be read again later, by its
place or by its name, unless it is an address of a size that is never read.
-/
import Dwarf2.Proofs.Entry.Layout

namespace Dwarf2
namespace Entry

variable {v : UnitView} {abbreviations : Abbreviation.Table} {limit : Nat}

/-- The values are passed over from `start` on, each from the end of the one before. -/
inductive Chained (v : UnitView) : List AttributeSpec → Nat → List Nat → Nat → Prop
  | nil (stop : Nat) : Chained v [] stop [] stop
  | cons {declared : AttributeSpec} {rest : List AttributeSpec} {start next stop : Nat}
      {offsets : List Nat} (passed : (v.skipValue declared.form).run start = .ok ((), next))
      (behind : Chained v rest next offsets stop) :
      Chained v (declared :: rest) start (start :: offsets) stop

theorem chained_of_readValues {declared : List AttributeSpec} {start stop : Nat} {values : Values}
    (eq : (readValues v declared).run start = .ok (values, stop)) :
    Chained v declared start values.offsets stop := by
  induction declared generalizing start values with
  | nil =>
    cases eq
    exact .nil _
  | cons first rest ih =>
    simp only [readValues, Read.run_bind_eq_ok] at eq
    obtain ⟨position, _, here, sibling, next, passed, values', _, read, eq⟩ := eq
    cases here
    cases eq
    exact .cons (skips_of_readSibling? passed) (ih read)

namespace Chained

variable {declared : List AttributeSpec} {start stop : Nat} {offsets : List Nat}

theorem head (h : Chained v declared start offsets stop) :
    (offsets ++ [stop])[0]? = some start := by
  cases h with
  | nil | cons => rfl

/-- Every value has an offset, and ends at the next one. -/
theorem at_index (h : Chained v declared start offsets stop) {i : Nat} {spec : AttributeSpec}
    (there : declared[i]? = some spec) :
    ∃ position next, offsets[i]? = some position ∧ (offsets ++ [stop])[i + 1]? = some next ∧
      (v.skipValue spec.form).run position = .ok ((), next) := by
  induction h generalizing i with
  | nil => cases there
  | @cons _ _ start next _ _ passed behind ih =>
    cases i with
    | zero =>
      cases there
      exact ⟨start, next, rfl, behind.head, passed⟩
    | succ i => exact ih there

end Chained

/-- The value turns out to be an address, and the unit has addresses of a size that cannot be
read. -/
def Unreadable (v : UnitView) (form : Form) (start : Nat) : Prop :=
  ∃ named next, (v.actualForm form).run start = .ok (named, next) ∧ v.Unaddressable named

theorem lands_readValue?_of_skips {form : Form} {start stop : Nat}
    (skips : (v.skipValue form).run start = .ok ((), stop)) :
    (v.readValue? form).Lands start stop ↔ ¬Unreadable v form start :=
  (v.readValue?_iff_skipValue form start stop).trans (and_iff_right skips)

/-- What is passed over is read to the same end or not at all. -/
theorem value_eq_error_iff {form : Form} {start stop : Nat}
    (skips : (v.skipValue form).run start = .ok ((), stop)) :
    (∃ error, (v.readValue? form).value start = .error error) ↔ Unreadable v form start := by
  cases read : (v.readValue? form).run start with
  | error e =>
    have unreadable : Unreadable v form start := Classical.byContradiction fun readable => by
      obtain ⟨r, eq⟩ := (lands_readValue?_of_skips skips).2 readable
      rw [read] at eq
      cases eq
    refine iff_of_true ⟨e, ?_⟩ unreadable
    rw [Read.value, read]
    rfl
  | ok r =>
    obtain ⟨value, stop'⟩ := r
    have skips' := ((v.readValue?_iff_skipValue form start stop').1 ⟨value, read⟩).1
    refine iff_of_false ?_ ((lands_readValue?_of_skips skips').1 ⟨value, read⟩)
    rintro ⟨error, eq⟩
    rw [Read.value, read] at eq
    cases eq

theorem readAttribute_eq_error_iff {e : Entry} {name : AttributeName} :
    (∃ error, e.readAttribute v name = .error error) ↔
      ∃ form start, e.place? name = some (form, start) ∧
        ∃ error, (v.readValue? form).value start = .error error := by
  unfold readAttribute
  cases e.place? name with
  | none => simp
  | some place =>
    obtain ⟨form, start⟩ := place
    dsimp only
    cases read : (v.readValue? form).value start with
    | error e => exact iff_of_true ⟨e, rfl⟩ ⟨form, start, rfl, e, read⟩
    | ok r =>
      refine iff_of_false nofun ?_
      rintro ⟨_, _, ⟨⟩, error, failed⟩
      rw [read] at failed
      cases failed

/-- The place that is looked up by a name is the place of a value. -/
theorem exists_index_of_place? {e : Entry} {name : AttributeName} {form : Form} {start : Nat}
    (place : e.place? name = some (form, start)) :
    ∃ (i : Nat) (spec : AttributeSpec), e.abbreviation.attributes[i]? = some spec ∧
      e.attributeOffsets[i]? = some start ∧ spec.form = form := by
  obtain ⟨⟨spec, offset⟩, found, eq⟩ := Option.map_eq_some_iff.1 place
  cases eq
  obtain ⟨i, there⟩ := List.mem_iff_getElem?.1 (List.mem_of_find?_eq_some found)
  obtain ⟨spec_there, offset_there⟩ := List.getElem?_zip_eq_some.1 there
  exact ⟨i, spec, spec_there, offset_there, rfl⟩

/-- All values of the entry can be read from where the entry says that they are. -/
structure Decodable (v : UnitView) (e : Entry) : Prop where
  /-- Every value is passed over, and read, up to the offset of the next one.  The last ends
  somewhere in the section. -/
  value : ∃ stop, stop ≤ v.information.size ∧
    ∀ (i : Nat) (spec : AttributeSpec), e.abbreviation.attributes[i]? = some spec →
      ∃ start next, e.attributeOffsets[i]? = some start ∧
        (e.attributeOffsets ++ [stop])[i + 1]? = some next ∧
        (v.skipValue spec.form).run start = .ok ((), next) ∧
        ((∃ r, (v.readValue? spec.form).run start = .ok (r, next)) ↔
          ¬Unreadable v spec.form start)
  /-- A name is looked up without a fault, whether the entry has a value of that name or not. -/
  lookup : ∀ name, (∃ error, e.readAttribute v name = .error error) ↔
    ∃ form start, e.place? name = some (form, start) ∧ Unreadable v form start

theorem decodable_of_chained {e : Entry} {start stop : Nat}
    (h : Chained v e.abbreviation.attributes start e.attributeOffsets stop)
    (inside : stop ≤ v.information.size) : e.Decodable v := by
  refine ⟨⟨stop, inside, fun i spec there => ?_⟩, fun name => ?_⟩
  · obtain ⟨position, next, here, behind, skips⟩ := h.at_index there
    exact ⟨position, next, here, behind, skips, lands_readValue?_of_skips skips⟩
  · rw [readAttribute_eq_error_iff]
    refine exists_congr fun form => exists_congr fun start => and_congr_right fun place => ?_
    obtain ⟨i, spec, there, here, rfl⟩ := exists_index_of_place? place
    obtain ⟨position, next, here', -, skips⟩ := h.at_index there
    cases here.symm.trans here'
    exact value_eq_error_iff skips

/-- The values of a tree that was read can all be read from the offsets that it keeps, at any
later time and in any order. -/
theorem decodable_of_read {start stop : Nat} {t : Tree}
    (read : Tree.read v abbreviations start stop = .ok t) {offset : Nat} {e : Entry}
    (found : t.get? offset = some e) : e.Decodable v := by
  obtain ⟨behind, walk⟩ := walk_of_read read
  refine walk.all (P := Decodable v) ?_ _ _ rfl e (Tree.get?_eq_some.1 found).1
  intro start behind a values children _ head
  obtain ⟨code, next, code_read, -, -, values_read⟩ := run_readHead?_eq_some.1 head
  have code_inside : next ≤ v.information.size :=
    v.info.le_size_of_leb128 ((v.lands_unsigned ..).1 ⟨code, code_read⟩)
  have inside := (of_readValues values_read code_inside).2.2
  exact decodable_of_chained (chained_of_readValues values_read) inside

/-- The structure that tells its sibling, inside of a unit. -/
theorem decodable_record :
    ∃ t, Tree.read Filled.view Filled.shapes 11 27 = .ok t ∧
      t.get? 15 = some ⟨15, Filled.record, [16], []⟩ ∧
      Decodable Filled.view ⟨15, Filled.record, [16], []⟩ := by
  have there : Filled.view.information.Holds 11 Filled.layout.bytes :=
    ⟨List.replicate 11 0, [0x7f], rfl, rfl⟩
  have inside : 11 + Filled.layout.bytes.length ≤ min 27 Filled.view.information.size := by decide
  have walked := read_of_walk (Filled.layout_fits.walk (by decide) there inside)
  cases read : Tree.read Filled.view Filled.shapes 11 27 with
  | error e =>
    rw [read] at walked
    cases walked
  | ok t =>
    rw [read] at walked
    have root : t.root = Filled.layout.entry 11 := Except.ok.inj walked
    have found : t.get? 15 = some ⟨15, Filled.record, [16], []⟩ :=
      Tree.get?_eq_some.2 ⟨by rw [root]; exact .tail _ (.head _), rfl⟩
    exact ⟨t, rfl, found, decodable_of_read read found⟩

end Entry
end Dwarf2
