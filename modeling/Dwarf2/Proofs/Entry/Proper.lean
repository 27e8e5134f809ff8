/-
What is read is a proper tree, whatever the section holds.

Siblings may be declared anywhere, ahead, behind or past the end of the unit, and values may
run over that end.  The walk comes to an end all the same, every entry that it finds lies in
the unit, and no entry is found twice.  The values of an entry start behind its code, one
behind the other, and inside the section.
-/
import Dwarf2.Proofs.Entry.Walk
import Dwarf2.Proofs.UnitView

namespace Dwarf2
namespace Entry

variable {v : UnitView} {abbreviations : Abbreviation.Table} {limit : Nat}

/-! ## Where values start -/

/-- A value is passed over, also the one that tells the sibling. -/
theorem skips_of_readSibling? {declared : AttributeSpec} {start stop : Nat}
    {sibling : Option Nat}
    (eq : (readSibling? v declared).run start = .ok (sibling, stop)) :
    (v.skipValue declared.form).run start = .ok ((), stop) := by
  have lands : (readSibling? v declared).Lands start stop := ⟨sibling, eq⟩
  unfold readSibling? at lands
  split at lands
  · rw [Read.lands_map, v.lands_readValue?_iff] at lands
    obtain ⟨named, next, follows, skips, -⟩ := lands
    exact v.run_skipValue_eq_ok.2 ⟨named, next, follows, skips⟩
  · rw [Read.lands_map] at lands
    obtain ⟨⟨⟩, eq⟩ := lands
    exact eq

/-- The offsets do not descend and lie between two positions. -/
structure Between (start stop : Nat) (offsets : List Nat) : Prop where
  sorted : offsets.Pairwise (· ≤ ·)
  bounds : ∀ offset ∈ offsets, start ≤ offset ∧ offset ≤ stop

theorem Between.cons {start next stop : Nat} {offsets : List Nat}
    (rest : Between next stop offsets) (le : start ≤ next) (le' : next ≤ stop) :
    Between start stop (start :: offsets) := by
  refine ⟨List.pairwise_cons.2 ⟨fun offset mem => ?_, rest.sorted⟩, fun offset mem => ?_⟩
  · exact Nat.le_trans le (rest.bounds offset mem).1
  · rcases List.mem_cons.1 mem with rfl | mem
    · exact ⟨Nat.le_refl _, Nat.le_trans le le'⟩
    · have := rest.bounds offset mem
      omega

theorem of_readValues {declared : List AttributeSpec} {start stop : Nat} {values : Values}
    (eq : (readValues v declared).run start = .ok (values, stop))
    (inside : start ≤ v.information.size) :
    values.offsets.length = declared.length ∧ Between start stop values.offsets ∧
      stop ≤ v.information.size := by
  induction declared generalizing start values with
  | nil =>
    cases eq
    exact ⟨rfl, ⟨.nil, nofun⟩, inside⟩
  | cons first rest ih =>
    simp only [readValues, Read.run_bind_eq_ok] at eq
    obtain ⟨position, _, here, sibling, next, passed, values', _, read, eq⟩ := eq
    cases here
    cases eq
    have le := Read.le_of_run passed
    have le' := Read.le_of_run read
    have inside' := v.le_size_of_skipValue (skips_of_readSibling? passed) inside
    obtain ⟨length, between, end_inside⟩ := ih read inside'
    exact ⟨congrArg Nat.succ length, between.cons le le', end_inside⟩

/-- The head of an entry is a code that is declared, and then the values. -/
theorem run_readHead?_eq_some {start behind : Nat} {a : Abbreviation} {values : Values} :
    (readHead? v abbreviations).run start = .ok (some (a, values), behind) ↔
      ∃ code next, v.info.unsigned.run start = .ok (code, next) ∧ code ≠ 0 ∧
        abbreviations.get? code = some a ∧
        (readValues v a.attributes).run next = .ok (values, behind) := by
  simp only [readHead?, Read.run_bind_eq_ok]
  constructor
  · rintro ⟨position, _, here, code, next, read, eq⟩
    cases here
    split at eq
    · cases eq
    rename_i nonnull
    split at eq
    · cases eq
    rename_i a' declared
    rw [Read.run_bind_eq_ok] at eq
    obtain ⟨values', _, values_read, eq⟩ := eq
    cases eq
    exact ⟨code, next, read, nonnull, declared, values_read⟩
  · rintro ⟨code, next, read, nonnull, declared, values_read⟩
    refine ⟨start, start, rfl, code, next, read, ?_⟩
    rw [if_neg nonnull, declared]
    exact Read.run_bind_eq_ok.2 ⟨values, behind, values_read, rfl⟩

/-! ## Proper trees -/

/-- The entry is of a declared shape and lies in the unit, and its values in the section. -/
structure Placed (v : UnitView) (abbreviations : Abbreviation.Table) (limit : Nat)
    (e : Entry) : Prop where
  declared : ∃ code, abbreviations.get? code = some e.abbreviation
  lt_limit : e.offset < limit
  length_offsets : e.attributeOffsets.length = e.abbreviation.attributes.length
  sorted_offsets : e.attributeOffsets.Pairwise (· ≤ ·)
  bounds : ∀ offset ∈ e.attributeOffsets, e.offset < offset ∧ offset ≤ v.information.size

theorem placed_of_readHead? {start behind : Nat} {a : Abbreviation} {values : Values}
    {children : List Entry} (inside : start < limit)
    (head : (readHead? v abbreviations).run start = .ok (some (a, values), behind)) :
    Placed v abbreviations limit ⟨start, a, values.offsets, children⟩ := by
  obtain ⟨code, next, read, -, declared, values_read⟩ := run_readHead?_eq_some.1 head
  have progress := v.info.unsigned_progresses start code next read
  have code_inside : next ≤ v.information.size :=
    v.info.le_size_of_leb128 ((v.lands_unsigned ..).1 ⟨code, read⟩)
  obtain ⟨length, between, end_inside⟩ := of_readValues values_read code_inside
  refine ⟨⟨code, declared⟩, inside, length, between.sorted, fun offset mem => ?_⟩
  have := between.bounds offset mem
  dsimp only
  omega

/-- The entries are found by their offsets and hang together in one tree. -/
structure Tree.Proper (v : UnitView) (abbreviations : Abbreviation.Table) (limit start : Nat)
    (t : Tree) : Prop where
  root : t.root.offset = start
  child : ∀ offset e, t.get? offset = some e → ∀ c ∈ e.children, t.get? c.offset = some c
  /-- So no entry is visited twice, and none is under itself. -/
  ascending : (t.root.preorder.map Entry.offset).Pairwise (· < ·)
  visited : ∀ offset, (∃ e, t.get? offset = some e) ↔ offset ∈ t.root.preorder.map Entry.offset
  size : t.size = t.root.preorder.length
  placed : ∀ offset e, t.get? offset = some e → Placed v abbreviations limit e

theorem Tree.exists_get?_iff (t : Tree) (offset : Nat) :
    (∃ e, t.get? offset = some e) ↔ offset ∈ t.root.preorder.map Entry.offset := by
  simp only [get?_eq_some, List.mem_map]

theorem Tree.size_eq (t : Tree) (distinct : (t.root.preorder.map Entry.offset).Nodup) :
    t.size = t.root.preorder.length := by
  have keys : t.index.keys.Perm (t.root.preorder.map Entry.offset) := by
    refine (List.perm_ext_iff_of_nodup t.index.nodup_keys distinct).2 fun offset => ?_
    rw [Std.HashMap.mem_keys, Std.HashMap.mem_iff_isSome_getElem?, Option.isSome_iff_exists]
    exact t.exists_get?_iff offset
  rw [Tree.size, ← Std.HashMap.length_keys, keys.length_eq, List.length_map]

mutual

/-- What is under an entry of the tree is in the tree. -/
theorem preorder_subset {e d : Entry} :
    (top : Entry) → e ∈ top.preorder → d ∈ e.preorder → d ∈ top.preorder
  | ⟨_, _, _, children⟩, mem, under => by
    rcases List.mem_cons.1 mem with rfl | mem
    · exact under
    · exact List.mem_cons_of_mem _ (preorderAll_subset children mem under)

theorem preorderAll_subset {e d : Entry} :
    (es : List Entry) → e ∈ preorderAll es → d ∈ e.preorder → d ∈ preorderAll es
  | first :: rest, mem, under => by
    rcases List.mem_append.1 mem with mem | mem
    · exact List.mem_append.2 (.inl (preorder_subset first mem under))
    · exact List.mem_append.2 (.inr (preorderAll_subset rest mem under))

end

theorem Tree.get?_child (t : Tree) {offset : Nat} {e c : Entry} (found : t.get? offset = some e)
    (mem : c ∈ e.children) : t.get? c.offset = some c := by
  have under := (get?_eq_some.1 found).1
  exact get?_eq_some.2 ⟨preorder_subset t.root under (mem_preorder_of_mem_children mem), rfl⟩

theorem ascending_of_read {start stop : Nat} {t : Tree}
    (read : Tree.read v abbreviations start stop = .ok t) :
    (t.root.preorder.map Entry.offset).Pairwise (· < ·) := by
  unfold Tree.read at read
  dsimp only at read
  split at read
  · cases read
  · rename_i found
    cases read
    exact List.pairwise_map.2 (ascend_readNode? (ascend_readForest _) found).pairwise
  · cases read

/-- Every walk comes to one end, and a tree is read as the walk goes.  Whatever the section and
the declared siblings are, the tree is a proper one. -/
theorem reads_proper_tree (v : UnitView) (abbreviations : Abbreviation.Table) (start stop : Nat) :
    let limit := min stop v.information.size
    (∃ r, (∀ r', Walk v abbreviations limit start r' ↔ r' = r) ∧
        (Tree.read v abbreviations start stop).map Tree.root = rootOf v r) ∧
      ∀ t, Tree.read v abbreviations start stop = .ok t →
        t.Proper v abbreviations limit start := by
  refine ⟨?_, fun t read => ?_⟩
  · obtain ⟨r, walk, -⟩ := exists_walk v abbreviations (Nat.min_le_right stop _) start
    refine ⟨r, fun r' => ⟨fun walk' => walk'.unique walk, ?_⟩, read_of_walk walk⟩
    rintro rfl
    exact walk
  · obtain ⟨behind, walk⟩ := walk_of_read read
    have ascending := ascending_of_read read
    refine ⟨walk.offset_eq, fun offset e found c mem => t.get?_child found mem, ascending,
      t.exists_get?_iff, t.size_eq (ascending.imp Nat.ne_of_lt), fun offset e found => ?_⟩
    have each : ∀ start behind a values children, start < min stop v.information.size →
        (readHead? v abbreviations).run start = .ok (some (a, values), behind) →
        Placed v abbreviations (min stop v.information.size)
          ⟨start, a, values.offsets, children⟩ :=
      fun _ _ _ _ _ inside head => placed_of_readHead? inside head
    exact walk.all each _ _ rfl e (Tree.get?_eq_some.1 found).1

end Entry
end Dwarf2
