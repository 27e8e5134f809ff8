/-
The index by address and the symbols that it is about.

The index says again what the symbols themselves say, so it is right only as long as every
operation keeps it in step: `Indexed`.  The symbols that can be filled in later are the reason
why that is not plain from how symbols are made.  What is looked up in the index is then what a
search through all symbols comes to.
-/
import Dwarf2.Proofs.Symbol.Line
import Dwarf2.Proofs.Symbol.Operation

namespace Dwarf2
namespace Symbol

namespace Placed

theorem not_before_self (p : Placed) : ¬p.Before p := by
  unfold Before
  simp only [UInt64.lt_iff_toNat_lt]
  omega

/-- The one of those with the property that comes behind all others. -/
structure Last (P : Placed → Prop) (p : Placed) : Prop where
  mem : P p
  last : ∀ q, P q → q = p ∨ q.Before p

theorem Last.unique {P : Placed → Prop} {p q : Placed} (h : Last P p) (h' : Last P q) : q = p := by
  rcases h.last q h'.mem with same | before
  · exact same
  · rcases h'.last p h.mem with same | before'
    · exact same.symm
    · exact absurd (before.trans before') q.not_before_self

end Placed

namespace AddressIndex

variable {index : AddressIndex} {address : UInt64}

theorem nodup (index : AddressIndex) : index.placed.Nodup := by
  refine index.descending.imp fun {p q} before same => ?_
  rw [same] at before
  exact q.not_before_self before

/-- The first in the list that starts soon enough comes last of all that do. -/
theorem last_of_find? {p : Placed} (found : index.placed.find? (·.address ≤ address) = some p) :
    p.Last fun q => q ∈ index.placed ∧ q.address ≤ address := by
  obtain ⟨soon, later, earlier, parts, tooLate⟩ := List.find?_eq_some_iff_append.1 found
  have descending := index.descending
  rw [parts] at descending ⊢
  refine ⟨⟨by simp, of_decide_eq_true soon⟩, fun q ⟨mem, starts⟩ => ?_⟩
  rcases List.mem_append.1 mem with mem | mem
  · have := tooLate q mem
    simp [starts] at this
  · rcases List.mem_cons.1 mem with rfl | mem
    · exact .inl rfl
    · obtain ⟨-, descending, -⟩ := List.pairwise_append.1 descending
      exact .inr ((List.pairwise_cons.1 descending).1 q mem)

theorem nearest?_eq_some_iff {id : SymbolId} :
    index.nearest? address = some id ↔
      ∃ p : Placed, p.Last (fun q => q ∈ index.placed ∧ q.address ≤ address) ∧ p.id = id := by
  unfold nearest?
  rw [Option.map_eq_some_iff]
  constructor
  · rintro ⟨p, found, rfl⟩
    exact ⟨p, last_of_find? found, rfl⟩
  · rintro ⟨p, last, rfl⟩
    cases found : index.placed.find? (·.address ≤ address) with
    | none =>
      have := List.find?_eq_none.1 found p last.mem.1
      exact absurd last.mem.2 (by simpa using this)
    | some q => exact ⟨q, rfl, congrArg Placed.id (last.unique (last_of_find? found))⟩

theorem nearest?_eq_none_iff :
    index.nearest? address = none ↔ ∀ p ∈ index.placed, ¬p.address ≤ address := by
  simp [nearest?]

end AddressIndex

namespace Table

variable {t : Table} {id : SymbolId} {x : Symbol}

/-! ## The index keeps in step -/

/-- The symbols in the index are those that lie in memory, each with the address it has. -/
def Indexed (t : Table) : Prop :=
  ∀ p, p ∈ t.addresses.placed ↔ t.address? p.id = some p.address

theorem address?_push (t : Table) (x : Symbol) (id : SymbolId) :
    (t.push x).2.address? id = if id.index = t.size then x.address? else t.address? id := by
  rw [address?, get?_push]
  split <;> rfl

theorem lt_size_of_address? {address : UInt64} (h : t.address? id = some address) :
    id.index < t.size := by
  obtain ⟨x, there, -⟩ := Option.bind_eq_some_iff.1 h
  exact lt_size_of_get? there

theorem address?_update {f : Symbol → Symbol} (kept : ∀ x, (f x).address? = x.address?)
    (t : Table) (id other : SymbolId) : (t.update id f).address? other = t.address? other := by
  by_cases here : other = id
  · subst here
    rw [address?, get?_update_self, address?]
    cases t.get? other with
    | none => rfl
    | some x => exact kept x
  · rw [address?, get?_update_of_ne t f here, address?]

namespace Indexed

theorem empty : ({} : Table).Indexed := by
  intro p
  simp [address?, get?]

theorem push (h : t.Indexed) (x : Symbol) : (t.push x).2.Indexed := by
  intro p
  have placed : p ∈ (t.push x).2.addresses.placed ↔
      p ∈ t.addresses.placed ∨ p.id = ⟨t.size⟩ ∧ x.address? = some p.address :=
    mem_addresses_place _ _ x p
  rw [placed, h p, address?_push]
  by_cases here : p.id.index = t.size
  · have new : p.id = ⟨t.size⟩ := congrArg SymbolId.mk here
    have absent : ¬t.address? p.id = some p.address := fun old =>
      absurd (lt_size_of_address? old) (by omega)
    rw [if_pos here, or_iff_right absent, and_iff_right new]
  · have old : p.id ≠ ⟨t.size⟩ := fun new => here (congrArg SymbolId.index new)
    rw [if_neg here, or_iff_left fun new => old new.1]

theorem update (h : t.Indexed) {f : Symbol → Symbol} (kept : ∀ x, (f x).address? = x.address?)
    (id : SymbolId) : (t.update id f).Indexed := by
  intro p
  rw [address?_update kept]
  exact h p

theorem fill (h : t.Indexed) (id : SymbolId) (x : Symbol) : (t.fill id x).Indexed := by
  unfold Table.fill
  split
  case h_2 => exact h
  rename_i empty
  intro p
  have unplaced : t.address? id = none := by rw [address?, empty]; rfl
  rw [mem_addresses_place, address?, get?_place]
  by_cases here : p.id = id
  · have absent : p ∉ t.addresses.placed := fun old => by
      rw [h p, here, unplaced] at old
      cases old
    rw [here, get?_update_self, empty, and_iff_right rfl]
    exact or_iff_right absent
  · rw [get?_update_of_ne _ _ here, or_iff_left fun new => here new.1]
    exact h p

theorem of_same (h : t.Indexed) {u : Table} (symbols : u.symbols = t.symbols)
    (addresses : u.addresses = t.addresses) : u.Indexed := by
  intro p
  rw [addresses, address?, get?, symbols]
  exact h p

theorem addLine (h : t.Indexed) (source : SourceId) (line address : UInt64) :
    (t.addLine source line address).2.Indexed := by
  rcases t.addLine_cases source line address with same | ⟨id, f, lines, -, -, -, -, eq⟩
  · rw [same]
    exact h
  · rw [eq]
    exact h.update (fun x => by cases x <;> rfl) id

theorem effect (h : t.Indexed) {op : Operation} {u : Table} (effect : op.Effect t u) :
    u.Indexed := by
  cases effect with
  | push => exact h.push _
  | fill id x => exact h.fill id x
  | change address => exact h.update address _
  | attach source line address => exact h.addLine source line address
  | beside symbols addresses => exact h.of_same symbols addresses

theorem after (h : t.Indexed) (operations : List Operation) : (t.after operations).Indexed :=
  after_induction (fun t op h => h.effect (op.effect t)) h operations

end Indexed

/-! ## Searching through the symbols -/

/-- The last of some symbols, in no matter which order they are looked at. -/
def last? : List Placed → Option Placed
  | [] => none
  | p :: rest =>
    match last? rest with
    | none => some p
    | some q => if p.Before q then some q else some p

/-- All symbols that lie in memory, found by looking at every symbol. -/
def inMemory (t : Table) : List Placed :=
  t.symbols.toList.zipIdx.filterMap fun (x, i) => x.address?.map fun address => ⟨address, ⟨i⟩⟩

/-- What `nearest?` is about, without the index. -/
def search (t : Table) (address : UInt64) : Option SymbolId :=
  (last? (t.inMemory.filter (·.address ≤ address))).map Placed.id

theorem last?_eq_none_iff {placed : List Placed} : last? placed = none ↔ placed = [] := by
  cases placed with
  | nil => simp [last?]
  | cons p rest =>
    unfold last?
    split
    · simp
    · split <;> simp

theorem last_of_last? {placed : List Placed} {p : Placed} (found : last? placed = some p) :
    p.Last (· ∈ placed) := by
  induction placed generalizing p with
  | nil => cases found
  | cons first rest ih =>
    unfold last? at found
    split at found
    · rename_i none
      cases found
      rw [last?_eq_none_iff.1 none]
      exact ⟨List.mem_singleton_self _, fun q hq => .inl (List.mem_singleton.1 hq)⟩
    · rename_i r behind
      have tail := ih behind
      split at found
      · rename_i before
        cases found
        refine ⟨List.mem_cons_of_mem _ tail.mem, fun q hq => ?_⟩
        rcases List.mem_cons.1 hq with rfl | hq
        · exact .inr before
        · exact tail.last q hq
      · rename_i notBefore
        cases found
        refine ⟨List.mem_cons_self, fun q hq => ?_⟩
        rcases List.mem_cons.1 hq with rfl | hq
        · exact .inl rfl
        · by_cases same : r = first
          · rw [← same]
            exact tail.last q hq
          · have before := Placed.before_of_not notBefore (Ne.symm same)
            rcases tail.last q hq with rfl | earlier
            · exact .inr before
            · exact .inr (earlier.trans before)

theorem mem_inMemory {p : Placed} : p ∈ t.inMemory ↔ t.address? p.id = some p.address := by
  obtain ⟨address, ⟨i⟩⟩ := p
  unfold inMemory address? get?
  simp only [List.mem_filterMap, Prod.exists, List.mem_zipIdx_iff_getElem?, Array.getElem?_toList,
    Option.map_eq_some_iff, Placed.mk.injEq, SymbolId.mk.injEq, Option.bind_eq_some_iff]
  constructor
  · rintro ⟨x, j, there, a, hx, rfl, rfl⟩
    exact ⟨x, there, hx⟩
  · rintro ⟨x, there, hx⟩
    exact ⟨x, i, there, address, hx, rfl, rfl⟩

/-- The symbol lies in memory, and not past the address. -/
def Starts (t : Table) (address : UInt64) (p : Placed) : Prop :=
  t.address? p.id = some p.address ∧ p.address ≤ address

theorem mem_inMemory_filter_iff {address : UInt64} (p : Placed) :
    p ∈ t.inMemory.filter (·.address ≤ address) ↔ t.Starts address p := by
  rw [List.mem_filter, mem_inMemory, Starts, decide_eq_true_iff]

theorem search_eq_some_iff {address : UInt64} :
    t.search address = some id ↔ ∃ p : Placed, p.Last (t.Starts address) ∧ p.id = id := by
  have starts : t.Starts address = (· ∈ t.inMemory.filter (·.address ≤ address)) :=
    funext fun p => propext (mem_inMemory_filter_iff p).symm
  rw [search, Option.map_eq_some_iff, starts]
  constructor
  · rintro ⟨p, found, rfl⟩
    exact ⟨p, last_of_last? found, rfl⟩
  · rintro ⟨p, last, rfl⟩
    cases found : last? (t.inMemory.filter (·.address ≤ address)) with
    | none =>
      have mem := last.mem
      rw [last?_eq_none_iff.1 found] at mem
      cases mem
    | some q => exact ⟨q, rfl, congrArg Placed.id (last.unique (last_of_last? found))⟩

theorem Indexed.nearest?_eq_some_iff (h : t.Indexed) {address : UInt64} :
    t.nearest? address = some id ↔ ∃ p : Placed, p.Last (t.Starts address) ∧ p.id = id := by
  have starts : t.Starts address = fun q => q ∈ t.addresses.placed ∧ q.address ≤ address :=
    funext fun p => propext (and_congr_left fun _ => (h p).symm)
  rw [nearest?, starts]
  exact AddressIndex.nearest?_eq_some_iff

theorem Indexed.nearest?_eq_search (h : t.Indexed) (address : UInt64) :
    t.nearest? address = t.search address :=
  Option.ext fun _ => h.nearest?_eq_some_iff.trans search_eq_some_iff.symm

/-- However a table is used, its index has every function and every global variable just once,
at the address where it starts, and nothing besides.  So the symbol that is nearest to an
address is the one that a search through all symbols gives: the last, by address and then by
identifier, of those that start at the address or before. -/
theorem indexed_after (operations : List Operation) :
    let t := ({} : Table).after operations
    (∀ p, t.addresses.placed.count p = if t.address? p.id = some p.address then 1 else 0) ∧
      ∀ address, t.nearest? address = t.search address ∧
        (∀ id, t.nearest? address = some id ↔
          ∃ start, t.address? id = some start ∧ start ≤ address ∧
            ∀ other begin, t.address? other = some begin → begin ≤ address →
              other = id ∧ begin = start ∨ Placed.Before ⟨begin, other⟩ ⟨start, id⟩) ∧
        (t.nearest? address = none ↔ ∀ id start, t.address? id = some start → address < start) := by
  intro t
  have indexed : t.Indexed := Indexed.empty.after operations
  refine ⟨fun p => ?_, fun address => ⟨indexed.nearest?_eq_search address, fun id => ?_, ?_⟩⟩
  · rw [t.addresses.nodup.count]
    simp only [indexed p]
  · rw [indexed.nearest?_eq_some_iff]
    constructor
    · rintro ⟨⟨start, _⟩, last, rfl⟩
      refine ⟨start, last.mem.1, last.mem.2, fun other begin there soon => ?_⟩
      refine (last.last ⟨begin, other⟩ ⟨there, soon⟩).imp_left fun same => ?_
      cases same
      exact ⟨rfl, rfl⟩
    · rintro ⟨start, there, soon, last⟩
      refine ⟨⟨start, id⟩, ⟨⟨there, soon⟩, fun q starts => ?_⟩, rfl⟩
      refine (last q.id q.address starts.1 starts.2).imp_left fun ⟨same, same'⟩ => ?_
      cases q
      cases same
      cases same'
      rfl
  · rw [nearest?, AddressIndex.nearest?_eq_none_iff]
    simp only [UInt64.not_le]
    constructor
    · intro late id start there
      exact late ⟨start, id⟩ ((indexed _).2 there)
    · intro late p mem
      exact late p.id p.address ((indexed p).1 mem)

end Table
end Symbol
end Dwarf2
