/-
How long a type is.

The length of a type is found on a walk along the targets of typedefs and the elements of
arrays.  `Walk` is that walk without any bound on it, with the number of values that every hop
multiplies the length by.  The main statement is `typeLength?_iff_walk`: the type has a length
if the walk comes to a type that says its own size, and the length is the exact product as far
as a word can hold it; it has none if the walk comes to an end elsewhere or goes in a circle.

There is at most one hop from a symbol.  So a walk to a type with a size does not come to any
symbol twice, and is shorter than the table is long.
-/
import Dwarf2.Proofs.Symbol.Table
import Mathlib.Data.Fintype.Pigeonhole

namespace Dwarf2
namespace Symbol

/-- The size of the types that say it themselves. -/
def ownSize? : Symbol → Option UInt64
  | baseType b => some b.size
  | pointer p => some p.size
  | aggregate a => some a.size
  | enumeration e => some e.size
  | _ => none

/-- A difference of bounds as a count: nothing for bounds in the wrong order, and never more
than a signed word can tell. -/
def clamp (difference : Int) : Nat :=
  (min (max difference 0) (2 ^ 63 - 1)).toNat

theorem clamp_lt (difference : Int) : clamp difference < 2 ^ 63 := by
  unfold clamp
  omega

theorem clamp_of_nonneg {difference : Int} (low : 0 ≤ difference) (high : difference < 2 ^ 63) :
    clamp difference = difference.toNat := by
  unfold clamp
  omega

theorem clamp_eq_min_toNat (difference : Int) :
    clamp difference = min difference.toNat 0x7fffffffffffffff := by
  unfold clamp
  omega

def ArrayType.elements (a : ArrayType) : Nat :=
  clamp (a.max.toInt - a.min.toInt)

theorem ArrayType.toNat_count (a : ArrayType) : a.count.toNat = a.elements := by
  have clamped := clamp_eq_min_toNat (a.max.toInt - a.min.toInt)
  have fits : a.elements < 2 ^ 64 := Nat.lt_trans (clamp_lt _) (by decide)
  rw [count, UInt64.toNat_ofNat', elements, clamped]
  rw [elements, clamped] at fits
  exact Nat.mod_eq_of_lt fits

namespace Table

variable {t : Table} {id next other last : SymbolId} {n : Nat} {counts more : List Nat}

/-- Where the walk goes from a symbol, and how many values of the next type a value of this one
is made of. -/
inductive Hop (t : Table) (id : SymbolId) : (count : Nat) → (next : SymbolId) → Prop
  | typedef {d : Typedef} {next : SymbolId} (here : t.get? id = some (.typedef d))
      (target : d.target = some next) : Hop t id 1 next
  | array {a : ArrayType} {next : SymbolId} (here : t.get? id = some (.array a))
      (element : a.element = some next) : Hop t id a.elements next

/-- The walk, with the counts of its hops in order. -/
inductive Walk (t : Table) : SymbolId → List Nat → SymbolId → Prop
  | stay (id : SymbolId) : Walk t id [] id
  | hop {id next last : SymbolId} {count : Nat} {counts : List Nat} (first : t.Hop id count next)
      (rest : Walk t next counts last) : Walk t id (count :: counts) last

/-- The walk comes to a type that says its own size. -/
def Ends (t : Table) (id : SymbolId) (counts : List Nat) (size : UInt64) : Prop :=
  ∃ last x, t.Walk id counts last ∧ t.get? last = some x ∧ x.ownSize? = some size

/-- The walk can neither end in a size here nor go on. -/
inductive DeadEnd (t : Table) (id : SymbolId) : Prop
  | missing (absent : t.get? id = none)
  | typedef {d : Typedef} (here : t.get? id = some (.typedef d)) (absent : d.target = none)
  | array {a : ArrayType} (here : t.get? id = some (.array a)) (absent : a.element = none)
  | other {x : Symbol} (here : t.get? id = some x) (sizeless : x.ownSize? = none)
      (typedef : ∀ d, x ≠ .typedef d) (array : ∀ a, x ≠ .array a)

/-- The walk comes back to where it starts. -/
def Circles (t : Table) (id : SymbolId) : Prop :=
  ∃ counts, counts ≠ [] ∧ t.Walk id counts id

/-! ## Walks -/

namespace Hop

theorem unique {m : Nat} (h : t.Hop id n next) (h' : t.Hop id m other) : n = m ∧ next = other := by
  cases h with
  | typedef here target =>
    cases h' with
    | typedef here' target' =>
      cases here.symm.trans here'
      exact ⟨rfl, Option.some.inj (target.symm.trans target')⟩
    | array here' => cases here.symm.trans here'
  | array here element =>
    cases h' with
    | typedef here' => cases here.symm.trans here'
    | array here' element' =>
      cases here.symm.trans here'
      exact ⟨rfl, Option.some.inj (element.symm.trans element')⟩

theorem lt_size (h : t.Hop id n next) : id.index < t.size := by
  cases h with
  | typedef here => exact lt_size_of_get? here
  | array here => exact lt_size_of_get? here

theorem not_ownSize {x : Symbol} {size : UInt64} (h : t.Hop id n next)
    (here : t.get? id = some x) : x.ownSize? ≠ some size := by
  cases h with
  | typedef there => cases there.symm.trans here; nofun
  | array there => cases there.symm.trans here; nofun

theorem not_deadEnd (h : t.Hop id n next) : ¬t.DeadEnd id := by
  intro dead
  cases h with
  | typedef here target =>
    cases dead with
    | missing absent => cases here.symm.trans absent
    | typedef here' absent =>
      cases here.symm.trans here'
      cases target.symm.trans absent
    | array here' => cases here.symm.trans here'
    | other here' _ typedef => exact typedef _ (Option.some.inj (here'.symm.trans here))
  | array here element =>
    cases dead with
    | missing absent => cases here.symm.trans absent
    | typedef here' => cases here.symm.trans here'
    | array here' absent =>
      cases here.symm.trans here'
      cases element.symm.trans absent
    | other here' _ _ array => exact array _ (Option.some.inj (here'.symm.trans here))

end Hop

/-- There are no other symbols than those with a size, those with a hop, and dead ends. -/
theorem size_or_hop_or_deadEnd (t : Table) (id : SymbolId) :
    (∃ x size, t.get? id = some x ∧ x.ownSize? = some size) ∨ (∃ n next, t.Hop id n next) ∨
      t.DeadEnd id := by
  cases here : t.get? id with
  | none => exact .inr (.inr (.missing here))
  | some x =>
    cases size : x.ownSize? with
    | some n => exact .inl ⟨x, n, rfl, size⟩
    | none =>
      right
      cases x with
      | typedef d =>
        cases target : d.target with
        | none => exact .inr (.typedef here target)
        | some next => exact .inl ⟨1, next, .typedef here target⟩
      | array a =>
        cases element : a.element with
        | none => exact .inr (.array here element)
        | some next => exact .inl ⟨a.elements, next, .array here element⟩
      | _ => exact .inr (.other here size nofun nofun)

namespace Walk

theorem cut (h : t.Walk id counts last) {k : Nat} (le : k ≤ counts.length) :
    ∃ front back middle, counts = front ++ back ∧ front.length = k ∧ t.Walk id front middle ∧
      t.Walk middle back last := by
  induction h generalizing k with
  | stay id => exact ⟨[], [], id, rfl, (Nat.le_zero.1 le).symm, .stay id, .stay id⟩
  | @hop id next last count counts first rest ih =>
    cases k with
    | zero => exact ⟨[], _, id, rfl, rfl, .stay id, .hop first rest⟩
    | succ k =>
      obtain ⟨front, back, middle, rfl, length, before, after⟩ := ih (Nat.le_of_succ_le_succ le)
      exact ⟨count :: front, back, middle, rfl, congrArg Nat.succ length, .hop first before, after⟩

/-- Where the walk has come to after some hops is settled. -/
theorem end_unique (h : t.Walk id counts last) (h' : t.Walk id more other)
    (length : counts.length = more.length) : last = other := by
  induction h generalizing more with
  | stay id =>
    cases h' with
    | stay => rfl
    | hop => cases length
  | hop first rest ih =>
    cases h' with
    | stay => cases length
    | hop first' rest' =>
      obtain ⟨rfl, rfl⟩ := first.unique first'
      exact ih rest' (Nat.succ.inj length)

/-- A walk that cannot be made longer passes wherever the walk comes to. -/
theorem passes (h : t.Walk id counts last) (stop : ∀ n next, ¬t.Hop last n next)
    (h' : t.Walk id more other) :
    ∃ rest, t.Walk other rest last ∧ more.length + rest.length = counts.length := by
  induction h' generalizing counts with
  | stay id => exact ⟨counts, h, Nat.zero_add _⟩
  | hop first' rest' ih =>
    cases h with
    | stay => exact absurd first' (stop _ _)
    | hop first rest =>
      obtain ⟨rfl, rfl⟩ := first.unique first'
      obtain ⟨back, after, length⟩ := ih rest
      exact ⟨back, after, by rw [List.length_cons, List.length_cons, ← length]; omega⟩

/-- Among more symbols than there are in the table one comes twice. -/
theorem exists_circle (h : t.Walk id counts last) (long : t.size < counts.length) :
    ∃ front middle, t.Walk id front middle ∧ t.Circles middle := by
  have cuts : ∀ k : Fin (t.size + 1), ∃ front middle, front.length = k.1 ∧ t.Walk id front middle ∧
      middle.index < t.size := by
    intro k
    have inside : k.1 < counts.length := Nat.lt_of_le_of_lt (Nat.le_of_lt_succ k.2) long
    obtain ⟨front, back, middle, rfl, length, before, after⟩ := h.cut (Nat.le_of_lt inside)
    cases after with
    | stay => rw [List.append_nil, length] at inside; exact absurd inside (Nat.lt_irrefl _)
    | hop first => exact ⟨front, middle, length, before, first.lt_size⟩
  choose front middle length before inside using cuts
  have repeats : ∃ i j : Fin (t.size + 1), i < j ∧ middle i = middle j := by
    obtain ⟨i, j, ne, same⟩ := Fintype.exists_ne_map_eq_of_card_lt
      (fun k => (⟨(middle k).index, inside k⟩ : Fin t.size)) (by simp)
    have same : middle i = middle j := congrArg SymbolId.mk (Fin.mk.inj same)
    rcases Nat.lt_or_gt_of_ne (Fin.val_ne_of_ne ne) with lt | gt
    · exact ⟨i, j, lt, same⟩
    · exact ⟨j, i, gt, same.symm⟩
  obtain ⟨i, j, lt, same⟩ := repeats
  have le : i.1 ≤ (front j).length := by rw [length]; exact Nat.le_of_lt lt
  obtain ⟨start, back, there, split, short, toThere, fromThere⟩ := (before j).cut le
  cases toThere.end_unique (before i) (short.trans (length i).symm)
  refine ⟨front i, middle i, before i, back, ?_, same ▸ fromThere⟩
  rintro rfl
  have := length j
  rw [split, List.append_nil, short] at this
  exact Nat.ne_of_lt lt this

end Walk

namespace Ends

variable {size : UInt64}

theorem hop (first : t.Hop id n next) (h : t.Ends next counts size) :
    t.Ends id (n :: counts) size := by
  obtain ⟨last, x, walk, here, own⟩ := h
  exact ⟨last, x, .hop first walk, here, own⟩

/-- A walk that ends in a size meets no dead end and goes in no circle. -/
theorem clear (h : t.Ends id counts size) (walk : t.Walk id more other) :
    ¬t.DeadEnd other ∧ ¬t.Circles other := by
  obtain ⟨last, x, whole, here, own⟩ := h
  have stop : ∀ n next, ¬t.Hop last n next := fun n next hop => hop.not_ownSize here own
  obtain ⟨rest, after, -⟩ := whole.passes stop walk
  constructor
  · intro dead
    cases after with
    | stay =>
      cases dead with
      | missing absent => cases here.symm.trans absent
      | typedef there => cases here.symm.trans there; cases own
      | array there => cases here.symm.trans there; cases own
      | other there sizeless =>
        cases here.symm.trans there
        cases own.symm.trans sizeless
    | hop first => exact first.not_deadEnd dead
  · rintro ⟨round, nonempty, circle⟩
    obtain ⟨rest', again, longer⟩ := after.passes stop circle
    -- The way from here to the end is as long as the way that first goes round once.
    obtain ⟨rest'', toEnd, length⟩ := after.passes stop again
    cases toEnd with
    | stay =>
      have := List.length_pos_iff.2 nonempty
      rw [List.length_nil] at length
      omega
    | hop first => exact stop _ _ first

theorem length_le (h : t.Ends id counts size) : counts.length ≤ t.size := by
  by_contra long
  have same := h
  obtain ⟨last, x, whole, -, -⟩ := same
  obtain ⟨front, middle, walk, circle⟩ := whole.exists_circle (Nat.lt_of_not_le long)
  exact (h.clear walk).2 circle

end Ends

/-! ## Lengths -/

/-- The largest length that can be told. -/
def lastLength : Nat := 2 ^ 64 - 1

theorem toNat_le_lastLength (n : UInt64) : n.toNat ≤ lastLength :=
  Nat.le_sub_one_of_lt n.toNat_lt

/-- A product that is stopped once is as good as one that is stopped at every step, with a
zero at any of them. -/
theorem min_min_mul (a b : Nat) :
    min (min a lastLength * b) lastLength = min (a * b) lastLength := by
  cases b with
  | zero => simp
  | succ b =>
    rcases Nat.le_total a lastLength with le | ge
    · rw [Nat.min_eq_left le]
    · have left : lastLength ≤ lastLength * (b + 1) := Nat.le_mul_of_pos_right _ (Nat.succ_pos b)
      have right : lastLength ≤ a * (b + 1) := Nat.le_trans left (Nat.mul_le_mul_right _ ge)
      rw [Nat.min_eq_right ge, Nat.min_eq_right left, Nat.min_eq_right right]

section

variable (t) (hops : Nat) (elements : UInt64)

theorem lengthWithin_of_ownSize {x : Symbol} {size : UInt64} (here : t.get? id = some x)
    (own : x.ownSize? = some size) :
    t.lengthWithin (hops + 1) elements id = some (Word.saturatingMul size elements) := by
  unfold lengthWithin
  rw [here]
  cases x <;> cases own <;> rfl

theorem lengthWithin_of_deadEnd (dead : t.DeadEnd id) :
    t.lengthWithin (hops + 1) elements id = none := by
  unfold lengthWithin
  cases dead with
  | missing absent => rw [absent]
  | typedef here absent => simp only [here, absent, Option.bind_none]
  | array here absent => simp only [here, absent, Option.bind_none]
  | @other x here sizeless typedef array =>
    rw [here]
    cases x with
    | typedef d => exact absurd rfl (typedef d)
    | array a => exact absurd rfl (array a)
    | baseType | pointer | aggregate | enumeration => cases sizeless
    | _ => rfl

theorem exists_lengthWithin_of_hop (first : t.Hop id n next) :
    ∃ elements' : UInt64, elements'.toNat = min (elements.toNat * n) lastLength ∧
      t.lengthWithin (hops + 1) elements id = t.lengthWithin hops elements' next := by
  cases first with
  | typedef here target =>
    refine ⟨elements, ?_, ?_⟩
    · rw [Nat.mul_one, Nat.min_eq_left (toNat_le_lastLength elements)]
    · simp only [lengthWithin, here, target, Option.bind_some]
  | @array a _ here element =>
    refine ⟨Word.saturatingMul elements a.count, ?_, ?_⟩
    · rw [Word.toNat_saturatingMul, a.toNat_count]
      rfl
    · simp only [lengthWithin, here, element, Option.bind_some]

end

/-- A walk that ends is followed to its end by as many steps as it has symbols. -/
theorem lengthWithin_of_ends {size : UInt64} (h : t.Ends id counts size) {hops : Nat}
    (enough : counts.length < hops) (elements : UInt64) :
    ∃ length, t.lengthWithin hops elements id = some length ∧
      length.toNat = min (elements.toNat * counts.prod * size.toNat) lastLength := by
  obtain ⟨last, x, walk, here, own⟩ := h
  induction walk generalizing hops elements with
  | stay id =>
    cases hops with
    | zero => cases enough
    | succ hops =>
      refine ⟨_, t.lengthWithin_of_ownSize hops elements here own, ?_⟩
      rw [Word.toNat_saturatingMul, List.prod_nil, Nat.mul_one, Nat.mul_comm]
      rfl
  | @hop id next last n counts first rest ih =>
    cases hops with
    | zero => cases enough
    | succ hops =>
      obtain ⟨elements', value, step⟩ := t.exists_lengthWithin_of_hop hops elements first
      obtain ⟨length, eq, product⟩ := ih (Nat.lt_of_succ_lt_succ enough) elements' here
      refine ⟨length, step.trans eq, ?_⟩
      rw [product, value, List.prod_cons, Nat.mul_assoc, min_min_mul, Nat.mul_assoc,
        Nat.mul_assoc, Nat.mul_assoc]

/-- Whatever the steps, the walk ends within them, comes to a dead end, or goes on for longer. -/
theorem ends_or_deadEnd_or_long (t : Table) (id : SymbolId) (hops : Nat) :
    (∃ counts size, t.Ends id counts size ∧ counts.length < hops) ∨
      (∃ counts other, t.Walk id counts other ∧ t.DeadEnd other) ∨
      ∃ counts last, t.Walk id counts last ∧ counts.length = hops := by
  induction hops generalizing id with
  | zero => exact .inr (.inr ⟨[], id, .stay id, rfl⟩)
  | succ hops ih =>
    rcases t.size_or_hop_or_deadEnd id with ⟨x, size, here, own⟩ | ⟨n, next, first⟩ | dead
    · exact .inl ⟨[], size, ⟨id, x, .stay id, here, own⟩, Nat.succ_pos hops⟩
    · rcases ih next with ⟨counts, size, ends, lt⟩ | ⟨counts, other, walk, dead⟩ |
        ⟨counts, last, walk, length⟩
      · exact .inl ⟨n :: counts, size, ends.hop first, Nat.succ_lt_succ lt⟩
      · exact .inr (.inl ⟨n :: counts, other, .hop first walk, dead⟩)
      · exact .inr (.inr ⟨n :: counts, last, .hop first walk, congrArg Nat.succ length⟩)
    · exact .inr (.inl ⟨[], id, .stay id, dead⟩)

/-- What is found at all is found on a walk that ends. -/
theorem exists_ends_of_lengthWithin {hops : Nat} {elements length : UInt64}
    (found : t.lengthWithin hops elements id = some length) :
    ∃ counts size, t.Ends id counts size ∧ counts.length < hops := by
  induction hops generalizing id elements with
  | zero => cases found
  | succ hops ih =>
    rcases t.size_or_hop_or_deadEnd id with ⟨x, size, here, own⟩ | ⟨n, next, first⟩ | dead
    · exact ⟨[], size, ⟨id, x, .stay id, here, own⟩, Nat.succ_pos hops⟩
    · obtain ⟨elements', -, step⟩ := t.exists_lengthWithin_of_hop hops elements first
      obtain ⟨counts, size, ends, lt⟩ := ih (step.symm.trans found)
      exact ⟨n :: counts, size, ends.hop first, Nat.succ_lt_succ lt⟩
    · rw [t.lengthWithin_of_deadEnd hops elements dead] at found
      cases found

theorem typeLength?_of_ends {size : UInt64} (h : t.Ends id counts size) :
    ∃ length, t.typeLength? id = some length ∧
      length.toNat = min (counts.prod * size.toNat) lastLength := by
  obtain ⟨length, found, value⟩ := lengthWithin_of_ends h (Nat.lt_succ_of_le h.length_le) 1
  refine ⟨length, found, ?_⟩
  rw [value, UInt64.toNat_one, Nat.one_mul]

theorem typeLength?_eq_some_iff {length : UInt64} : t.typeLength? id = some length ↔
    ∃ counts size, t.Ends id counts size ∧
      length.toNat = min (counts.prod * size.toNat) lastLength := by
  constructor
  · intro found
    obtain ⟨counts, size, ends, -⟩ := exists_ends_of_lengthWithin found
    obtain ⟨length', found', value⟩ := typeLength?_of_ends ends
    cases found.symm.trans found'
    exact ⟨counts, size, ends, value⟩
  · rintro ⟨counts, size, ends, value⟩
    obtain ⟨length', found, value'⟩ := typeLength?_of_ends ends
    rw [found, UInt64.toNat_inj.1 (value.trans value'.symm)]

theorem typeLength?_eq_none_iff : t.typeLength? id = none ↔
    ∃ counts other, t.Walk id counts other ∧ (t.DeadEnd other ∨ t.Circles other) := by
  constructor
  · intro absent
    rcases t.ends_or_deadEnd_or_long id (t.size + 1) with ⟨counts, size, ends, -⟩ |
      ⟨counts, other, walk, dead⟩ | ⟨counts, last, walk, length⟩
    · obtain ⟨length, found, -⟩ := typeLength?_of_ends ends
      cases absent.symm.trans found
    · exact ⟨counts, other, walk, .inl dead⟩
    · obtain ⟨front, middle, before, circle⟩ := walk.exists_circle (by omega)
      exact ⟨front, middle, before, .inr circle⟩
  · rintro ⟨counts, other, walk, bad⟩
    by_contra present
    obtain ⟨length, found⟩ := Option.ne_none_iff_exists'.1 present
    obtain ⟨counts', size, ends, -⟩ := exists_ends_of_lengthWithin found
    obtain ⟨open', straight⟩ := ends.clear walk
    exact bad.elim open' straight

/-- An array of a type with a length is so many times as long. -/
theorem typeLength?_of_array {a : ArrayType} {element : SymbolId} {length : UInt64}
    (here : t.get? id = some (.array a)) (of : a.element = some element)
    (found : t.typeLength? element = some length) :
    ∃ whole, t.typeLength? id = some whole ∧
      whole.toNat = min (length.toNat * a.elements) lastLength := by
  obtain ⟨counts, size, ends, value⟩ := typeLength?_eq_some_iff.1 found
  obtain ⟨whole, found', value'⟩ := typeLength?_of_ends (ends.hop (.array here of))
  refine ⟨whole, found', ?_⟩
  rw [value', value, List.prod_cons, min_min_mul, Nat.mul_assoc, Nat.mul_comm]

/-- The length of a type is the size that the walk ends in, times all counts on the way, and
stops at the largest word.  There is none if and only if the walk comes to a dead end or to a
symbol for the second time.  More steps than the walk is allowed find no more. -/
theorem typeLength?_iff_walk (t : Table) (id : SymbolId) :
    (∀ length, t.typeLength? id = some length ↔
      ∃ counts last x size, t.Walk id counts last ∧ t.get? last = some x ∧
        x.ownSize? = some size ∧ length.toNat = min (size.toNat * counts.prod) (2 ^ 64 - 1)) ∧
    (t.typeLength? id = none ↔
      ∃ counts other, t.Walk id counts other ∧ (t.DeadEnd other ∨ t.Circles other)) ∧
    ∀ length, t.typeLength? id = some length ↔ ∃ hops, t.lengthWithin hops 1 id = some length := by
  refine ⟨fun length => ?_, typeLength?_eq_none_iff, fun length => ?_⟩
  · rw [typeLength?_eq_some_iff]
    constructor
    · rintro ⟨counts, size, ⟨last, x, walk, here, own⟩, value⟩
      exact ⟨counts, last, x, size, walk, here, own, Nat.mul_comm _ _ ▸ value⟩
    · rintro ⟨counts, last, x, size, walk, here, own, value⟩
      exact ⟨counts, size, ⟨last, x, walk, here, own⟩, Nat.mul_comm _ _ ▸ value⟩
  · constructor
    · exact fun found => ⟨t.size + 1, found⟩
    · rintro ⟨hops, found⟩
      obtain ⟨counts, size, ends, lt⟩ := exists_ends_of_lengthWithin found
      obtain ⟨length', found', value⟩ := lengthWithin_of_ends ends lt 1
      cases found.symm.trans found'
      rw [UInt64.toNat_one, Nat.one_mul] at value
      exact typeLength?_eq_some_iff.2 ⟨counts, size, ends, value⟩

end Table
end Symbol
end Dwarf2
