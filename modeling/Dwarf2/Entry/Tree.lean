/-
Reading the tree of a unit.

Entries follow one another: after an entry come its children, ended by a null code, and
then its next sibling.  An entry may also say where its sibling is, and what lies between
is passed over.
-/
import Dwarf2.Entry

namespace Dwarf2
namespace Entry

/-- Where the attributes of an entry start, and the sibling it declares. -/
structure Values where
  offsets : List Nat
  sibling : Option Nat

/-- Passes over one value.  Only the sibling is looked at. -/
def readSibling? (v : UnitView) (declared : AttributeSpec) : Read (Option Nat) :=
  if declared.name = .sibling then
    (fun r => r.2.bind AttributeValue.toReference?) <$> v.readValue? declared.form
  else
    (fun _ => none) <$> v.skipValue declared.form

/-- Passes over the values of an entry.  Of several siblings the last counts. -/
def readValues (v : UnitView) : List AttributeSpec → Read Values
  | [] => return ⟨[], none⟩
  | declared :: rest => do
    let start ← Read.position
    let sibling ← readSibling? v declared
    let values ← readValues v rest
    return ⟨start :: values.offsets, values.sibling <|> sibling⟩

/-- The code and the attribute values of one entry; none for a null code. -/
def readHead? (v : UnitView) (abbreviations : Abbreviation.Table) :
    Read (Option (Abbreviation × Values)) := do
  let start ← Read.position
  let code ← v.info.unsigned
  if code = 0 then
    return none
  match abbreviations.get? code with
  | none => v.info.fault (.undeclaredCode start code)
  | some abbreviation => return some (abbreviation, ← readValues v abbreviation.attributes)

theorem readHead?_progresses (v : UnitView) (abbreviations : Abbreviation.Table) :
    (readHead? v abbreviations).Progresses v.information.size :=
  .after fun _ => v.info.unsigned_progresses.bind _

/-- Passes over what lies before the declared sibling, but never more than the rest of the
unit. -/
def passGap (limit : Nat) : Option Nat → Read Unit
  | some sibling => Read.advanceTo (min sibling limit)
  | none => pure ()

/-- The entry at the position and all that is under it, which `forest` reads; none for a null
code and at the end of the unit. -/
def readNode? (v : UnitView) (abbreviations : Abbreviation.Table) (limit : Nat)
    (forest : Read (List Entry)) : Read (Option Entry) := do
  let start ← Read.position
  if limit ≤ start then
    return none
  match ← readHead? v abbreviations with
  | none => return none
  | some (abbreviation, values) =>
    let children ← if abbreviation.hasChildren then forest else pure []
    passGap limit values.sibling
    return some ⟨start, abbreviation, values.offsets, children⟩

theorem readNode?_itemsProgress (v : UnitView) (abbreviations : Abbreviation.Table)
    (limit : Nat) (forest : Read (List Entry)) :
    (readNode? v abbreviations limit forest).ItemsProgress v.information.size := by
  intro start e stop eq
  rw [readNode?, Read.run_bind, Read.run_position, Except.bind] at eq
  split at eq
  · cases eq
  · exact ((readHead?_progresses v abbreviations).bind _) start (some e) stop eq

/-- The entries of a list, up to a null code or the end of the unit.  Lists are read to the
given depth; every level takes a byte, so no list is deeper than the section is long. -/
def readForest (v : UnitView) (abbreviations : Abbreviation.Table) (limit : Nat) :
    (depth : Nat) → Read (List Entry)
  | 0 => return []
  | depth + 1 =>
    Read.many (readNode? v abbreviations limit (readForest v abbreviations limit depth))
      v.information.size (readNode?_itemsProgress v abbreviations limit _)

def readRoot? (v : UnitView) (abbreviations : Abbreviation.Table) (limit : Nat) :
    Read (Option Entry) :=
  readNode? v abbreviations limit
    (readForest v abbreviations limit v.information.size)

/-! ## The order of the entries

Every entry takes at least the byte of its code, and what is under it is read behind that
byte.  So the offsets of a tree ascend in preorder, and no two are alike. -/

/-- The entries lie between two positions, one behind the other. -/
structure Ascend (start stop : Nat) (entries : List Entry) : Prop where
  pairwise : entries.Pairwise fun a b => a.offset < b.offset
  start_le : ∀ e ∈ entries, start ≤ e.offset
  lt_stop : ∀ e ∈ entries, e.offset < stop

namespace Ascend

theorem nil (start stop : Nat) : Ascend start stop [] :=
  ⟨.nil, by simp, by simp⟩

theorem append {start middle stop : Nat} {front back : List Entry}
    (hf : Ascend start middle front) (hb : Ascend middle stop back)
    (le : start ≤ middle) (le' : middle ≤ stop) : Ascend start stop (front ++ back) := by
  refine ⟨List.pairwise_append.2 ⟨hf.pairwise, hb.pairwise, ?_⟩, ?_, ?_⟩
  · intro a ha b hb'
    exact Nat.lt_of_lt_of_le (hf.lt_stop a ha) (hb.start_le b hb')
  · intro e he
    rcases List.mem_append.1 he with h | h
    · exact hf.start_le e h
    · exact Nat.le_trans le (hb.start_le e h)
  · intro e he
    rcases List.mem_append.1 he with h | h
    · exact Nat.lt_of_lt_of_le (hf.lt_stop e h) le'
    · exact hb.lt_stop e h

theorem cons {e : Entry} {start stop : Nat} {rest : List Entry} (h : Ascend start stop rest)
    (before : e.offset < start) (le : start ≤ stop) : Ascend e.offset stop (e :: rest) := by
  refine ⟨List.pairwise_cons.2 ⟨fun a ha => ?_, h.pairwise⟩, ?_, ?_⟩
  · exact Nat.lt_of_lt_of_le before (h.start_le a ha)
  · intro a ha
    rcases List.mem_cons.1 ha with rfl | ha
    · exact Nat.le_refl _
    · exact Nat.le_of_lt (Nat.lt_of_lt_of_le before (h.start_le a ha))
  · intro a ha
    rcases List.mem_cons.1 ha with rfl | ha
    · exact Nat.lt_of_lt_of_le before le
    · exact h.lt_stop a ha

theorem mono {start stop stop' : Nat} {entries : List Entry} (h : Ascend start stop entries)
    (le : stop ≤ stop') : Ascend start stop' entries :=
  ⟨h.pairwise, h.start_le, fun e he => Nat.lt_of_lt_of_le (h.lt_stop e he) le⟩

end Ascend

theorem ascend_readNode? {v : UnitView} {abbreviations : Abbreviation.Table} {limit : Nat}
    {forest : Read (List Entry)}
    (hforest : ∀ start es stop, forest.run start = .ok (es, stop) →
      Ascend start stop (preorderAll es))
    {start : Nat} {e : Entry} {stop : Nat}
    (eq : (readNode? v abbreviations limit forest).run start = .ok (some e, stop)) :
    Ascend start stop e.preorder := by
  rw [readNode?, Read.run_bind_eq_ok] at eq
  obtain ⟨position, begin, hposition, eq⟩ := eq
  cases hposition
  split at eq
  · cases eq
  rw [Read.run_bind_eq_ok] at eq
  obtain ⟨head?, behind, hhead, eq⟩ := eq
  have step := readHead?_progresses v abbreviations start head? behind hhead
  cases head? with
  | none => cases eq
  | some head =>
    obtain ⟨abbreviation, values⟩ := head
    have under : ∀ {below : Read (List Entry)},
        (∀ es middle, below.run behind = .ok (es, middle) →
          Ascend behind middle (preorderAll es)) →
        (below >>= fun children => do
          passGap limit values.sibling
          return some ⟨start, abbreviation, values.offsets, children⟩).run behind =
            .ok (some e, stop) →
        Ascend start stop e.preorder := by
      intro below hbelow eq
      simp only [Read.run_bind_eq_ok] at eq
      obtain ⟨children, middle, hchildren, _, last, hgap, eq⟩ := eq
      have le := Read.le_of_run hchildren
      have le' := Read.le_of_run hgap
      cases eq
      exact ((hbelow children middle hchildren).mono le').cons
        (e := ⟨start, abbreviation, values.offsets, children⟩) step.2 (Nat.le_trans le le')
    dsimp only at eq
    split at eq
    · exact under (hforest behind) eq
    · refine under (fun es middle h => ?_) eq
      cases h
      exact .nil _ _

theorem ascend_readForest {v : UnitView} {abbreviations : Abbreviation.Table} {limit : Nat} :
    ∀ (depth start : Nat) (es : List Entry) (stop : Nat),
      (readForest v abbreviations limit depth).run start = .ok (es, stop) →
        Ascend start stop (preorderAll es) := by
  intro depth
  induction depth with
  | zero =>
    intro start es stop eq
    cases eq
    exact .nil _ _
  | succ depth ih =>
    intro start es stop eq
    -- The order of the two ends goes along, to put one entry before the rest.
    have both : start ≤ stop ∧ Ascend start stop (preorderAll es) := by
      refine Read.many_induction
        (P := fun start es stop => start ≤ stop ∧ Ascend start stop (preorderAll es))
        (fun start stop run => ⟨Read.le_of_run run, .nil _ _⟩)
        (fun start e next rest stop run tail => ?_) eq
      have le := Read.le_of_run run
      exact ⟨Nat.le_trans le tail.1,
        (ascend_readNode? ih run).append tail.2 le tail.1⟩
    exact both.2

/-! ## Trees -/

/-- The entries of a unit, found by their offsets. -/
structure Tree where
  root : Entry
  index : Std.HashMap Nat Entry
  index_eq_some : ∀ offset e, index[offset]? = some e ↔ e ∈ root.preorder ∧ e.offset = offset

theorem getElem?_foldl_insert (entries : List Entry) (index : Std.HashMap Nat Entry)
    (distinct : entries.Pairwise fun a b => a.offset < b.offset) (offset : Nat) (e : Entry) :
    (entries.foldl (fun index e => index.insert e.offset e) index)[offset]? = some e ↔
      e ∈ entries ∧ e.offset = offset ∨
        index[offset]? = some e ∧ ∀ a ∈ entries, a.offset ≠ offset := by
  induction entries generalizing index with
  | nil => simp
  | cons first rest ih =>
    obtain ⟨before, distinct⟩ := List.pairwise_cons.1 distinct
    rw [List.foldl_cons, ih _ distinct, Std.HashMap.getElem?_insert]
    by_cases here : first.offset = offset
    · have apart : ∀ a ∈ rest, a.offset ≠ offset := fun a ha => by
        have := before a ha
        omega
      have absent : ¬(e ∈ rest ∧ e.offset = offset) := fun h => apart e h.1 h.2
      simp only [here, beq_self_eq_true, if_true, Option.some.injEq, absent, false_or,
        List.mem_cons]
      constructor
      · rintro ⟨rfl, -⟩
        exact .inl ⟨.inl rfl, here⟩
      · rintro (⟨rfl | he, ho⟩ | ⟨-, none⟩)
        · exact ⟨rfl, apart⟩
        · exact absurd ⟨he, ho⟩ absent
        · exact absurd here (none first (.inl rfl))
    · have apart : (first.offset == offset) = false := by simpa using here
      simp only [apart, if_false, Bool.false_eq_true, List.mem_cons, forall_eq_or_imp]
      constructor
      · rintro (⟨he, ho⟩ | ⟨found, none⟩)
        · exact .inl ⟨.inr he, ho⟩
        · exact .inr ⟨found, here, none⟩
      · rintro (⟨rfl | he, ho⟩ | ⟨found, -, none⟩)
        · exact absurd ho here
        · exact .inl ⟨he, ho⟩
        · exact .inr ⟨found, none⟩

namespace Tree

def ofRoot (root : Entry) (ascending : root.preorder.Pairwise fun a b => a.offset < b.offset) :
    Tree where
  root
  index := root.fold (fun index e => index.insert e.offset e) ∅
  index_eq_some offset e := by
    rw [fold_eq, getElem?_foldl_insert _ _ ascending]
    simp

def get? (t : Tree) (offset : Nat) : Option Entry :=
  t.index[offset]?

def size (t : Tree) : Nat :=
  t.index.size

theorem get?_eq_some {t : Tree} {offset : Nat} {e : Entry} :
    t.get? offset = some e ↔ e ∈ t.root.preorder ∧ e.offset = offset :=
  t.index_eq_some offset e

theorem offset_of_get? {t : Tree} {offset : Nat} {e : Entry} (h : t.get? offset = some e) :
    e.offset = offset :=
  (get?_eq_some.1 h).2

theorem get?_root (t : Tree) : t.get? t.root.offset = some t.root :=
  get?_eq_some.2 ⟨t.root.mem_preorder, rfl⟩

/-- The tree whose root entry is at `start`.  The unit ends at `stop`, or with the section
if that comes first. -/
def read (v : UnitView) (abbreviations : Abbreviation.Table) (start stop : Nat) :
    Except Error Tree :=
  let limit := min stop v.information.size
  match eq : (readRoot? v abbreviations limit).run start with
  | .error e => .error e
  | .ok (some root, _) => .ok (ofRoot root (ascend_readNode? (ascend_readForest _) eq).pairwise)
  | .ok (none, _) => .error (.malformed .information (.noRootEntry v.base))

end Tree
end Entry
end Dwarf2
