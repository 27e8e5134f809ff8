/-
The walk of a cursor over the entries of a unit.

`Walk` and `WalkAll` say step by step where the cursor goes, and nothing about how deep the
entries lie.  A declared sibling moves the cursor ahead, but no further than the end of the
unit.  So where the values of an entry run over that end, the cursor goes back to it.

A read never goes back, and has its lists only to a given depth.  `exists_walk` says that
neither shows: behind the end of the unit nothing is read, wherever the cursor is, and no list
is deeper than the section is long.  Hence every walk comes to an end, and `read_of_walk` says
that a tree is read exactly as the walk goes.
-/
import Dwarf2.Entry.Tree

namespace Dwarf2
namespace Entry

/-- Where the cursor is put behind an entry that declares a sibling. -/
def jump (limit : Nat) (sibling : Option Nat) (position : Nat) : Nat :=
  match sibling with
  | some target => if position < target then min target limit else position
  | none => position

mutual

/-- The cursor reads an entry, or finds none, or meets a fault. -/
inductive Walk (v : UnitView) (abbreviations : Abbreviation.Table) (limit : Nat) :
    Nat → Except Error (Option Entry × Nat) → Prop
  | outside {start : Nat} (at_end : limit ≤ start) :
      Walk v abbreviations limit start (.ok (none, start))
  | unreadable {start : Nat} {e : Error} (inside : start < limit)
      (head : (readHead? v abbreviations).run start = .error e) :
      Walk v abbreviations limit start (.error e)
  | null {start stop : Nat} (inside : start < limit)
      (head : (readHead? v abbreviations).run start = .ok (none, stop)) :
      Walk v abbreviations limit start (.ok (none, stop))
  | leaf {start behind : Nat} {a : Abbreviation} {values : Values} (inside : start < limit)
      (head : (readHead? v abbreviations).run start = .ok (some (a, values), behind))
      (childless : a.hasChildren = false) :
      Walk v abbreviations limit start
        (.ok (some ⟨start, a, values.offsets, []⟩, jump limit values.sibling behind))
  | parent {start behind : Nat} {a : Abbreviation} {values : Values}
      {r : Except Error (List Entry × Nat)} (inside : start < limit)
      (head : (readHead? v abbreviations).run start = .ok (some (a, values), behind))
      (has_children : a.hasChildren = true) (below : WalkAll v abbreviations limit behind r) :
      Walk v abbreviations limit start (r.map fun (children, middle) =>
        (some ⟨start, a, values.offsets, children⟩, jump limit values.sibling middle))

/-- The cursor reads entries up to where it finds none, or meets a fault. -/
inductive WalkAll (v : UnitView) (abbreviations : Abbreviation.Table) (limit : Nat) :
    Nat → Except Error (List Entry × Nat) → Prop
  | done {start stop : Nat} (first : Walk v abbreviations limit start (.ok (none, stop))) :
      WalkAll v abbreviations limit start (.ok ([], stop))
  | fails {start : Nat} {e : Error} (first : Walk v abbreviations limit start (.error e)) :
      WalkAll v abbreviations limit start (.error e)
  | more {start next : Nat} {e : Entry} {r : Except Error (List Entry × Nat)}
      (first : Walk v abbreviations limit start (.ok (some e, next)))
      (rest : WalkAll v abbreviations limit next r) :
      WalkAll v abbreviations limit start (r.map fun (es, stop) => (e :: es, stop))

end

variable {v : UnitView} {abbreviations : Abbreviation.Table} {limit : Nat}

/-! ## One walk from a position -/

mutual

theorem Walk.unique {start : Nat} {r r' : Except Error (Option Entry × Nat)} :
    Walk v abbreviations limit start r → Walk v abbreviations limit start r' → r = r'
  | .outside at_end, h => by
    cases h with
    | outside => rfl
    | unreadable inside | null inside | leaf inside | parent inside => omega
  | .unreadable inside head, h => by
    cases h with
    | outside at_end => omega
    | unreadable _ head' =>
      cases head.symm.trans head'
      rfl
    | null _ head' | leaf _ head' | parent _ head' => cases head.symm.trans head'
  | .null inside head, h => by
    cases h with
    | outside at_end => omega
    | null _ head' =>
      cases head.symm.trans head'
      rfl
    | unreadable _ head' | leaf _ head' | parent _ head' => cases head.symm.trans head'
  | .leaf inside head childless, h => by
    cases h with
    | outside at_end => omega
    | leaf _ head' =>
      cases head.symm.trans head'
      rfl
    | unreadable _ head' | null _ head' => cases head.symm.trans head'
    | parent _ head' has_children =>
      cases head.symm.trans head'
      cases childless.symm.trans has_children
  | .parent inside head has_children below, h => by
    cases h with
    | outside at_end => omega
    | unreadable _ head' | null _ head' => cases head.symm.trans head'
    | leaf _ head' childless =>
      cases head.symm.trans head'
      cases childless.symm.trans has_children
    | parent _ head' _ below' =>
      cases head.symm.trans head'
      rw [below.unique below']

theorem WalkAll.unique {start : Nat} {r r' : Except Error (List Entry × Nat)} :
    WalkAll v abbreviations limit start r → WalkAll v abbreviations limit start r' → r = r'
  | .done first, h => by
    cases h with
    | done first' =>
      cases first.unique first'
      rfl
    | fails first' | more first' => cases first.unique first'
  | .fails first, h => by
    cases h with
    | fails first' =>
      cases first.unique first'
      rfl
    | done first' | more first' => cases first.unique first'
  | .more first rest, h => by
    cases h with
    | done first' | fails first' => cases first.unique first'
    | more first' rest' =>
      cases first.unique first'
      rw [rest.unique rest']

end

/-! ## What is read along a walk -/

/-- Where a read goes on behind an entry that declares a sibling: never before where it is. -/
def gapEnd (limit : Nat) (sibling : Option Nat) (position : Nat) : Nat :=
  match sibling with
  | some target => max position (min target limit)
  | none => position

theorem run_passGap (sibling : Option Nat) (position : Nat) :
    (passGap limit sibling).run position = .ok ((), gapEnd limit sibling position) := by
  cases sibling <;> rfl

/-- Two positions from which the same is read: behind the end of the unit nothing is. -/
def Meets (limit a b : Nat) : Prop :=
  a = b ∨ limit ≤ a ∧ limit ≤ b

theorem Meets.jump {position cursor : Nat} (h : Meets limit position cursor)
    (sibling : Option Nat) :
    Meets limit (gapEnd limit sibling position) (Entry.jump limit sibling cursor) := by
  cases sibling with
  | none => exact h
  | some target =>
    unfold Meets gapEnd Entry.jump at *
    dsimp only
    split <;> omega

/-- The same outcome, and ends from which the same is read. -/
inductive Agrees {α : Type} (limit : Nat) :
    Except Error (α × Nat) → Except Error (α × Nat) → Prop
  | ok (a : α) {stop cursor : Nat} (meets : Meets limit stop cursor) :
      Agrees limit (.ok (a, stop)) (.ok (a, cursor))
  | error (e : Error) : Agrees limit (.error e) (.error e)

theorem Agrees.map {α β : Type} {r r' : Except Error (α × Nat)} (h : Agrees limit r r')
    {f g : α × Nat → β × Nat} (same : ∀ a stop cursor, Meets limit stop cursor →
      (f (a, stop)).1 = (g (a, cursor)).1 ∧ Meets limit (f (a, stop)).2 (g (a, cursor)).2) :
    Agrees limit (r.map f) (r'.map g) := by
  cases h with
  | error e => exact .error e
  | ok a meets =>
    obtain ⟨value, ends⟩ := same a _ _ meets
    change Agrees limit (.ok ((f _).1, (f _).2)) (.ok ((g _).1, (g _).2))
    rw [value]
    exact .ok _ ends

section

variable {forest : Read (List Entry)} {start : Nat}

theorem run_readNode?_of_le (at_end : limit ≤ start) :
    (readNode? v abbreviations limit forest).run start = .ok (none, start) := by
  rw [readNode?, Read.run_bind, Read.run_position]
  change Read.run (if limit ≤ start then _ else _) start = _
  rw [if_pos at_end]
  rfl

theorem run_readNode?_of_lt (inside : start < limit) :
    (readNode? v abbreviations limit forest).run start =
      ((readHead? v abbreviations).run start).bind fun
        | (none, stop) => .ok (none, stop)
        | (some (a, values), behind) =>
          ((if a.hasChildren then forest else pure []).run behind).map fun (children, middle) =>
            (some ⟨start, a, values.offsets, children⟩, gapEnd limit values.sibling middle) := by
  rw [readNode?, Read.run_bind, Read.run_position]
  change Read.run (if limit ≤ start then _ else _) start = _
  rw [if_neg (Nat.not_le.2 inside), Read.run_bind]
  congr 1
  funext r
  obtain ⟨_ | ⟨a, values⟩, behind⟩ := r
  · rfl
  have entry : ∀ below : Read (List Entry),
      (below >>= fun children => do
        passGap limit values.sibling
        return some (⟨start, a, values.offsets, children⟩ : Entry)).run behind =
        (below.run behind).map fun (children, middle) =>
          (some ⟨start, a, values.offsets, children⟩, gapEnd limit values.sibling middle) := by
    intro below
    simp only [Read.run_bind, run_passGap]
    cases below.run behind <;> rfl
  dsimp only
  cases a.hasChildren
  · exact entry (pure [])
  · exact entry forest

end

/-- An entry is read as the cursor walks, if what is under it is. -/
theorem exists_walk_readNode? {forest : Read (List Entry)} {start cursor : Nat}
    (meets : Meets limit start cursor)
    (below : ∀ behind, start < behind →
      ∃ r, WalkAll v abbreviations limit behind r ∧ Agrees limit (forest.run behind) r) :
    ∃ r, Walk v abbreviations limit cursor r ∧
      Agrees limit ((readNode? v abbreviations limit forest).run start) r := by
  unfold Meets at meets
  by_cases at_end : limit ≤ cursor
  · rw [run_readNode?_of_le (by omega)]
    exact ⟨_, .outside at_end, .ok none meets⟩
  have inside : start < limit := by omega
  obtain rfl : start = cursor := by omega
  have progress := readHead?_progresses v abbreviations start
  rw [run_readNode?_of_lt inside]
  cases head : (readHead? v abbreviations).run start with
  | error e => exact ⟨_, .unreadable inside head, .error e⟩
  | ok r =>
    obtain ⟨_ | ⟨a, values⟩, behind⟩ := r
    · exact ⟨_, .null inside head, .ok none (.inl rfl)⟩
    have here : Meets limit behind behind := .inl rfl
    dsimp only [Except.bind]
    cases under : a.hasChildren with
    | false => exact ⟨_, .leaf inside head under, .ok _ (here.jump values.sibling)⟩
    | true =>
      obtain ⟨r, walk, agrees⟩ := below behind (progress _ _ head).2
      refine ⟨_, .parent inside head under walk, agrees.map fun children stop cursor meets => ?_⟩
      exact ⟨rfl, meets.jump values.sibling⟩

/-- A list is read as the cursor walks, if its entries are. -/
theorem exists_walk_many {forest : Read (List Entry)} {first : Nat}
    (node : ∀ start cursor, first ≤ start → Meets limit start cursor →
      ∃ r, Walk v abbreviations limit cursor r ∧
        Agrees limit ((readNode? v abbreviations limit forest).run start) r)
    {start cursor : Nat} (le : first ≤ start) (meets : Meets limit start cursor) :
    ∃ r, WalkAll v abbreviations limit cursor r ∧
      Agrees limit ((Read.many (readNode? v abbreviations limit forest) v.information.size
        (readNode?_itemsProgress v abbreviations limit forest)).run start) r := by
  obtain ⟨r, walk, agrees⟩ := node start cursor le meets
  have progress := readNode?_itemsProgress v abbreviations limit forest start
  rw [Read.run_many]
  generalize (readNode? v abbreviations limit forest).run start = read at agrees progress ⊢
  cases agrees with
  | error e => exact ⟨_, .fails walk, .error e⟩
  | @ok found next cursor' meets =>
    cases found with
    | none => exact ⟨_, .done walk, .ok [] meets⟩
    | some e =>
      have := progress e next rfl
      obtain ⟨r, rest, agrees⟩ := exists_walk_many node (by omega) meets
      refine ⟨_, .more walk rest, agrees.map fun es stop cursor meets => ?_⟩
      exact ⟨rfl, meets⟩
termination_by v.information.size - start

/-- Lists are read as the cursor walks, since the depth goes down no faster than the positions
go up. -/
theorem exists_walk_readForest (inside : limit ≤ v.information.size) {depth start cursor : Nat}
    (enough : v.information.size ≤ start + depth) (meets : Meets limit start cursor) :
    ∃ r, WalkAll v abbreviations limit cursor r ∧
      Agrees limit ((readForest v abbreviations limit depth).run start) r := by
  induction depth generalizing start cursor with
  | zero =>
    have at_end : limit ≤ cursor := by
      unfold Meets at meets
      omega
    exact ⟨_, .done (.outside at_end), .ok [] meets⟩
  | succ depth ih =>
    refine exists_walk_many (fun start' cursor' le meets => ?_) (Nat.le_refl start) meets
    refine exists_walk_readNode? meets fun behind lt => ?_
    exact ih (by omega) (.inl rfl)

/-- Wherever the cursor is put, its walk comes to an end. -/
theorem exists_walk (v : UnitView) (abbreviations : Abbreviation.Table) {limit : Nat}
    (inside : limit ≤ v.information.size) (start : Nat) :
    ∃ r, Walk v abbreviations limit start r ∧
      Agrees limit ((readRoot? v abbreviations limit).run start) r :=
  exists_walk_readNode? (.inl rfl) fun _ _ =>
    exists_walk_readForest inside (by omega) (.inl rfl)

/-- The root that a walk finds.  A unit without one is malformed. -/
def rootOf (v : UnitView) : Except Error (Option Entry × Nat) → Except Error Entry
  | .error e => .error e
  | .ok (some root, _) => .ok root
  | .ok (none, _) => .error (.malformed .information (.noRootEntry v.base))

theorem Agrees.rootOf_eq {r r' : Except Error (Option Entry × Nat)} (h : Agrees limit r r') :
    rootOf v r = rootOf v r' := by
  cases h with
  | ok found => cases found <;> rfl
  | error => rfl

theorem map_root_read (start stop : Nat) :
    (Tree.read v abbreviations start stop).map Tree.root =
      rootOf v ((readRoot? v abbreviations (min stop v.information.size)).run start) := by
  unfold Tree.read
  dsimp only
  split
  all_goals
    rename_i eq
    exact (congrArg (rootOf v) eq).symm

/-- The tree that is read is the one that the cursor finds on its walk. -/
theorem read_of_walk {start stop : Nat} {r : Except Error (Option Entry × Nat)}
    (walk : Walk v abbreviations (min stop v.information.size) start r) :
    (Tree.read v abbreviations start stop).map Tree.root = rootOf v r := by
  obtain ⟨r', walk', agrees⟩ := exists_walk v abbreviations (Nat.min_le_right stop _) start
  rw [map_root_read, agrees.rootOf_eq, walk'.unique walk]

theorem walk_of_read {start stop : Nat} {t : Tree}
    (read : Tree.read v abbreviations start stop = .ok t) :
    ∃ behind, Walk v abbreviations (min stop v.information.size) start
      (.ok (some t.root, behind)) := by
  obtain ⟨r, walk, -⟩ := exists_walk v abbreviations (Nat.min_le_right stop _) start
  have root := read_of_walk walk
  rw [read] at root
  match r with
  | .error e => cases root
  | .ok (none, behind) => cases root
  | .ok (some e, behind) =>
    cases root
    exact ⟨behind, walk⟩

/-! ## What holds of every entry -/

theorem Walk.offset_eq {start stop : Nat} {e : Entry}
    (walk : Walk v abbreviations limit start (.ok (some e, stop))) : e.offset = start := by
  generalize eq : Except.ok (some e, stop) = r at walk
  cases walk with
  | outside | unreadable | null => cases eq
  | leaf =>
    cases eq
    rfl
  | @parent _ _ _ _ r =>
    cases r with
    | error => cases eq
    | ok =>
      cases eq
      rfl

mutual

/-- What holds of an entry whatever its children are holds of all that a walk finds. -/
theorem Walk.all {P : Entry → Prop}
    (each : ∀ start behind a values children, start < limit →
      (readHead? v abbreviations).run start = .ok (some (a, values), behind) →
      P ⟨start, a, values.offsets, children⟩)
    {start : Nat} {r : Except Error (Option Entry × Nat)} :
    Walk v abbreviations limit start r → ∀ e stop, r = .ok (some e, stop) → ∀ d ∈ e.preorder, P d
  | .outside _, _, _, eq => nomatch eq
  | .unreadable _ _, _, _, eq => nomatch eq
  | .null _ _, _, _, eq => nomatch eq
  | .leaf inside head _, e, stop, eq => by
    cases eq
    intro d mem
    cases List.mem_singleton.1 mem
    exact each _ _ _ _ _ inside head
  | @Walk.parent _ _ _ start behind a values r inside head _ below, e, stop, eq => by
    match r, eq with
    | .ok (children, middle), eq =>
      cases eq
      intro d mem
      rcases List.mem_cons.1 mem with rfl | mem
      · exact each _ _ _ _ _ inside head
      · exact below.all each children middle rfl d mem

theorem WalkAll.all {P : Entry → Prop}
    (each : ∀ start behind a values children, start < limit →
      (readHead? v abbreviations).run start = .ok (some (a, values), behind) →
      P ⟨start, a, values.offsets, children⟩)
    {start : Nat} {r : Except Error (List Entry × Nat)} :
    WalkAll v abbreviations limit start r →
      ∀ es stop, r = .ok (es, stop) → ∀ d ∈ preorderAll es, P d
  | .done _, es, stop, eq => by
    cases eq
    intro d mem
    cases mem
  | .fails _, _, _, eq => nomatch eq
  | @WalkAll.more _ _ _ start next e r first rest, es, stop, eq => by
    match r, eq with
    | .ok (es, stop), eq =>
      cases eq
      intro d mem
      rcases List.mem_append.1 mem with mem | mem
      · exact first.all each e next rfl d mem
      · exact rest.all each es stop rfl d mem

end

end Entry
end Dwarf2
