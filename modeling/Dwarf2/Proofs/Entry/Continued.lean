/-
A unit that is followed by other bytes.

What is read from the bytes of the unit alone is read from the whole section too, unless it is cut
off: the values one by one, the entries, and the walk over them.
-/
import Dwarf2.Proofs.Entry.Values
import Dwarf2.Proofs.Section.Continued

namespace Dwarf2

variable {v : UnitView} {information : Bytes} {low : Nat}

namespace UnitView

/-- The section that the unit lies in is the same from the position on as the other one, as far as
that goes. -/
def Continues (v : UnitView) (information : Bytes) (low : Nat) : Prop :=
  v.info.Agrees (UnitView.info { v with information }) low v.information.size

theorem Continues.followIndirect (h : v.Continues information low) {start : Nat}
    (le : low ≤ start) :
    RanOut (v.followIndirect start) ∨
      UnitView.followIndirect { v with information } start = v.followIndirect start := by
  have first := (Section.continued_unsigned h) start le
  match run : v.info.unsigned.run start with
  | .error e =>
    rw [run] at first
    rw [followIndirect_error run]
    exact first.imp RanOut.error followIndirect_error
  | .ok (code, next) =>
    have := v.info.unsigned_progresses start code next run
    have same := first.resolve_left (run ▸ RanOut.not_ok _)
    rw [run] at same
    by_cases indirect : Form.ofCode code = .indirect
    · rw [followIndirect_next run indirect, followIndirect_next same indirect]
      exact Continues.followIndirect h (Nat.le_trans le (Nat.le_of_lt this.2))
    · rw [followIndirect_last run indirect, followIndirect_last same indirect]
      exact .inr rfl
termination_by v.information.size - start
decreasing_by simp only [info] at this; omega

namespace Continues

theorem actualForm (h : v.Continues information low) (form : Form) :
    (v.actualForm form).Continued low (UnitView.actualForm { v with information } form) := by
  cases form
  case indirect =>
    intro start le
    rw [UnitView.actualForm, UnitView.actualForm, Read.run_ofRun, Read.run_ofRun]
    exact h.followIndirect le
  all_goals exact .refl low _

theorem readDirect? (h : v.Continues information low) (form : Form) :
    (v.readDirect? form).Continued low (UnitView.readDirect? { v with information } form) := by
  have stays {α : Type} (a : α) : Read.Continued low (pure a) (pure a) := .refl low _
  cases form
  case addr | refAddr =>
    exact (Section.continued_address h rfl _).bind fun _ => stays _
  case flag | data1 | data2 | data4 | ref1 | ref2 | ref4 =>
    exact (Section.continued_fixed h rfl _).bind fun _ => stays _
  case udata | refUdata => exact (Section.continued_unsigned h).bind fun _ => stays _
  case sdata => exact (Section.continued_signed h).bind fun _ => stays _
  case string => exact (Section.continued_string h).bind fun _ => stays _
  case strp => exact (Section.continued_uint32 h).bind fun _ => stays _
  case block1 =>
    exact (Section.continued_uint8 h).bind fun _ =>
      (Section.continued_block h _).bind fun _ => stays _
  case block2 =>
    exact (Section.continued_uint16 h).bind fun _ =>
      (Section.continued_block h _).bind fun _ => stays _
  case block4 =>
    exact (Section.continued_uint32 h).bind fun _ =>
      (Section.continued_block h _).bind fun _ => stays _
  case block =>
    exact (Section.continued_unsigned h).bind fun _ =>
      (Section.continued_block h _).bind fun _ => stays _
  case data8 | ref8 => exact (Section.continued_skip h 8).bind fun _ => stays _
  case indirect | unknown => exact stays _

theorem readValue? (h : v.Continues information low) (form : Form) :
    (v.readValue? form).Continued low (UnitView.readValue? { v with information } form) :=
  (h.actualForm form).bind fun form => (h.readDirect? form).bind fun _ => .refl low _

theorem skipDirect (h : v.Continues information low) (form : Form) :
    (v.skipDirect form).Continued low (UnitView.skipDirect { v with information } form) := by
  have stays {α : Type} (a : α) : Read.Continued low (pure a) (pure a) := .refl low _
  cases form
  case udata | sdata | refUdata => exact (Section.continued_leb128 h).bind fun _ => stays _
  case string => exact (Section.continued_string h).bind fun _ => stays _
  case block1 => exact (Section.continued_uint8 h).bind fun _ => Section.continued_skip h _
  case block2 => exact (Section.continued_uint16 h).bind fun _ => Section.continued_skip h _
  case block4 => exact (Section.continued_uint32 h).bind fun _ => Section.continued_skip h _
  case block => exact (Section.continued_unsigned h).bind fun _ => Section.continued_skip h _
  case indirect | unknown => exact stays _
  -- The others have a length.
  all_goals exact Section.continued_skip h _

theorem skipValue (h : v.Continues information low) (form : Form) :
    (v.skipValue form).Continued low (UnitView.skipValue { v with information } form) :=
  (h.actualForm form).bind fun form => h.skipDirect form

end Continues

/-- A value that can be passed over is there in full. -/
theorem not_ranOut_readValue? {form : Form} {start stop : Nat}
    (skips : (v.skipValue form).run start = .ok ((), stop)) :
    ¬RanOut ((v.readValue? form).run start) := by
  by_cases unreadable : Entry.Unreadable v form start
  · obtain ⟨named, next, follows, address, size⟩ := unreadable
    have refused : (v.info.address v.addressSize).run next =
        .error (.malformed .information (.addressSize v.addressSize next)) := by
      rw [Section.address, if_neg size]
      rfl
    rw [UnitView.readValue?, Read.run_bind, follows]
    rcases address with rfl | rfl
    all_goals
      simp only [Except.bind, Read.run_bind, UnitView.readDirect?, refused]
      rintro ⟨_, _, _, ⟨⟩⟩
  · obtain ⟨r, read⟩ := (Entry.lands_readValue?_of_skips skips).2 unreadable
    rw [read]
    exact RanOut.not_ok _

end UnitView

namespace Entry

variable {abbreviations : Abbreviation.Table} {limit : Nat}

theorem continued_readSibling? (h : v.Continues information low) (declared : AttributeSpec) :
    (readSibling? v declared).Continued low (readSibling? { v with information } declared) :=
  .ite (fun _ => (h.readValue? declared.form).map _) fun _ => (h.skipValue declared.form).map _

theorem continued_readValues (h : v.Continues information low) (declared : List AttributeSpec) :
    (readValues v declared).Continued low (readValues { v with information } declared) := by
  induction declared with
  | nil => exact .refl low _
  | cons first rest ih =>
    refine (Read.Continued.refl low Read.position).bind fun _ => ?_
    exact (continued_readSibling? h first).bind fun _ => ih.bind fun _ => .refl low _

theorem continued_readHead? (h : v.Continues information low) :
    (readHead? v abbreviations).Continued low
      (readHead? { v with information } abbreviations) := by
  refine (Read.Continued.refl low Read.position).bind fun start => ?_
  refine (Section.continued_unsigned h).bind fun code => ?_
  refine .ite (fun _ => .refl low _) fun _ => ?_
  cases abbreviations.get? code with
  | none => exact .refl low _
  | some a => exact (continued_readValues h a.attributes).bind fun _ => .refl low _

theorem le_jump {start position : Nat} (inside : start < limit) (le : start ≤ position)
    (sibling : Option Nat) : start ≤ jump limit sibling position := by
  unfold jump
  split
  · split <;> omega
  · exact le

/-- The cursor does not end before the position. -/
def EndsAhead {α : Type} (start : Nat) : Except Error (α × Nat) → Prop
  | .ok (_, stop) => start ≤ stop
  | .error _ => True

mutual

/-- A cursor may be put back to the end of the unit, but not to before where it was. -/
theorem Walk.endsAhead {start : Nat} {r : Except Error (Option Entry × Nat)} :
    Walk v abbreviations limit start r → EndsAhead start r
  | .outside _ => Nat.le_refl start
  | .unreadable _ _ => trivial
  | .null _ head => Read.le_of_run head
  | .leaf inside head _ => le_jump inside (Read.le_of_run head) _
  | @Walk.parent _ _ _ _ _ _ _ r inside head _ below => by
    have under := below.endsAhead
    cases r with
    | error e => trivial
    | ok r => exact le_jump inside (Nat.le_trans (Read.le_of_run head) under) _

theorem WalkAll.endsAhead {start : Nat} {r : Except Error (List Entry × Nat)} :
    WalkAll v abbreviations limit start r → EndsAhead start r
  | .done first => first.endsAhead
  | .fails _ => trivial
  | @WalkAll.more _ _ _ _ _ _ r first rest => by
    have ahead := first.endsAhead
    have behind := rest.endsAhead
    cases r with
    | error e => trivial
    | ok r => exact Nat.le_trans ahead behind

end

mutual

/-- The cursor goes the same way, as long as it does not run out of bytes. -/
theorem Walk.continued (h : v.Continues information low) {start : Nat}
    {r : Except Error (Option Entry × Nat)} :
    Walk v abbreviations limit start r → low ≤ start → ¬RanOut r →
      Walk { v with information } abbreviations limit start r
  | .outside at_end, _, _ => .outside at_end
  | .unreadable inside head, le, enough => by
    have same := (continued_readHead? h).run_eq le (fun short => enough (head ▸ short).error)
    exact .unreadable inside (same.trans head)
  | .null inside head, le, _ => by
    have same := (continued_readHead? h).run_eq le (head ▸ RanOut.not_ok _)
    exact .null inside (same.trans head)
  | .leaf inside head childless, le, _ => by
    have same := (continued_readHead? h).run_eq le (head ▸ RanOut.not_ok _)
    exact .leaf inside (same.trans head) childless
  | .parent inside head has_children below, le, enough => by
    have same := (continued_readHead? h).run_eq le (head ▸ RanOut.not_ok _)
    have ahead := Nat.le_trans le (Read.le_of_run head)
    exact .parent inside (same.trans head) has_children
      (below.continued h ahead (fun short => enough ((RanOut.map_iff _).2 short)))

theorem WalkAll.continued (h : v.Continues information low) {start : Nat}
    {r : Except Error (List Entry × Nat)} :
    WalkAll v abbreviations limit start r → low ≤ start → ¬RanOut r →
      WalkAll { v with information } abbreviations limit start r
  | .done first, le, _ => .done (first.continued h le (RanOut.not_ok _))
  | .fails first, le, enough => .fails (first.continued h le fun short => enough short.error)
  | .more first rest, le, enough => by
    have ahead := Nat.le_trans le first.endsAhead
    exact .more (first.continued h le (RanOut.not_ok _))
      (rest.continued h ahead (fun short => enough ((RanOut.map_iff _).2 short)))

end

namespace Tree

variable {v' : UnitView} {start stop : Nat}

theorem ofRoot_congr {root root' : Entry} (same : root' = root)
    (ascending : root.preorder.Pairwise fun a b => a.offset < b.offset)
    (ascending' : root'.preorder.Pairwise fun a b => a.offset < b.offset) :
    ofRoot root' ascending' = ofRoot root ascending := by
  subst same
  rfl

/-- A tree is made of its root. -/
theorem eq_ofRoot {t : Tree} (read : Tree.read v abbreviations start stop = .ok t) :
    ∃ ascending, t = ofRoot t.root ascending := by
  unfold Tree.read at read
  dsimp only at read
  split at read
  · cases read
  · cases read
    exact ⟨_, rfl⟩
  · cases read

theorem read_eq_of_root (same : (Tree.read v' abbreviations start stop).map root =
    (Tree.read v abbreviations start stop).map root) :
    Tree.read v' abbreviations start stop = Tree.read v abbreviations start stop := by
  match read : Tree.read v abbreviations start stop,
    read' : Tree.read v' abbreviations start stop with
  | .error e, .error e' =>
    rw [read, read'] at same
    cases same
    rfl
  | .error e, .ok t' =>
    rw [read, read'] at same
    cases same
  | .ok t, .error e' =>
    rw [read, read'] at same
    cases same
  | .ok t, .ok t' =>
    rw [read, read'] at same
    obtain ⟨ascending, eq⟩ := eq_ofRoot read
    obtain ⟨ascending', eq'⟩ := eq_ofRoot read'
    rw [eq', eq, ofRoot_congr (Except.ok.inj same)]

/-- A tree that lies in the bytes of the unit is the tree of the unit, whatever comes behind. -/
theorem read_continued (h : v.Continues information low) (le : low ≤ start)
    (limit : min stop information.size = min stop v.information.size)
    (enough : ¬RanOut (Tree.read v abbreviations start stop)) :
    Tree.read { v with information } abbreviations start stop =
      Tree.read v abbreviations start stop := by
  obtain ⟨r, walk, -⟩ := exists_walk v abbreviations (Nat.min_le_right stop _) start
  have found := read_of_walk walk
  have complete : ¬RanOut r := by
    rintro ⟨kind, position, shortfall, rfl⟩
    exact enough ((RanOut.map_iff root).1 (found ▸ ⟨kind, position, shortfall, rfl⟩))
  have walk' := walk.continued h le complete
  rw [← limit] at walk'
  exact read_eq_of_root ((read_of_walk walk').trans found.symm)

end Tree

/-! ## Values -/

/-- Every value of the entry can be passed over where the entry says that it is. -/
def Passable (v : UnitView) (e : Entry) : Prop :=
  ∀ (i : Nat) (spec : AttributeSpec) (offset : Nat), e.abbreviation.attributes[i]? = some spec →
    e.attributeOffsets[i]? = some offset →
    e.offset < offset ∧ ∃ next, (v.skipValue spec.form).run offset = .ok ((), next)

theorem passable_of_readHead? {start behind : Nat} {a : Abbreviation} {values : Values}
    {children : List Entry} (inside : start < limit)
    (head : (readHead? v abbreviations).run start = .ok (some (a, values), behind)) :
    Passable v ⟨start, a, values.offsets, children⟩ := by
  have placed : Placed v abbreviations limit ⟨start, a, values.offsets, children⟩ :=
    placed_of_readHead? inside head
  obtain ⟨code, next, -, -, -, read⟩ := run_readHead?_eq_some.1 head
  intro i spec offset there here
  obtain ⟨position, next, here', -, skips⟩ := (chained_of_readValues read).at_index there
  cases here.symm.trans here'
  exact ⟨(placed.bounds _ (List.mem_of_getElem? here)).1, next, skips⟩

theorem passable_of_read {start stop : Nat} {t : Tree}
    (read : Tree.read v abbreviations start stop = .ok t) {e : Entry} (mem : e ∈ t.root.preorder) :
    start ≤ e.offset ∧ Passable v e := by
  obtain ⟨behind, walk⟩ := walk_of_read read
  have each := walk.all (fun _ _ _ _ _ inside head => passable_of_readHead? inside head) _ _ rfl
  refine ⟨?_, each e mem⟩
  have first := walk.offset_eq
  have ascending := List.pairwise_map.1 (ascending_of_read read)
  generalize t.root = top at first ascending mem
  obtain ⟨offset, a, offsets, children⟩ := top
  rcases List.mem_cons.1 mem with rfl | mem
  · exact Nat.le_of_eq first.symm
  · exact first ▸ Nat.le_of_lt ((List.pairwise_cons.1 ascending).1 e mem)

theorem readValue?_continued (h : v.Continues information low) {e : Entry}
    (passable : Passable v e) (le : low ≤ e.offset) {i offset : Nat} {spec : AttributeSpec}
    (there : e.abbreviation.attributes[i]? = some spec)
    (here : e.attributeOffsets[i]? = some offset) :
    (UnitView.readValue? { v with information } spec.form).run offset =
      (v.readValue? spec.form).run offset := by
  obtain ⟨behind, next, skips⟩ := passable i spec offset there here
  exact (h.readValue? spec.form).run_eq (by omega) (UnitView.not_ranOut_readValue? skips)

theorem readAttribute_continued (h : v.Continues information low) {e : Entry}
    (passable : Passable v e) (le : low ≤ e.offset) (name : AttributeName) :
    e.readAttribute { v with information } name = e.readAttribute v name := by
  unfold readAttribute
  match place : e.place? name with
  | none => rfl
  | some (form, offset) =>
    obtain ⟨i, spec, there, here, rfl⟩ := exists_index_of_place? place
    dsimp only
    rw [Read.value, readValue?_continued h passable le there here, Read.value]

end Entry

end Dwarf2
