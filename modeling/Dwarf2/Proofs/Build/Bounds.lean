/-
How long the arrays of entries are.

An entry of an array may have several subranges, each with a count.  An array has one pair of
bounds, and takes those of the last subrange.  So its length is that of its element times the
last count alone: `typeLength?_of_counted`.
-/
import Dwarf2.Proofs.Build.Trace
import Dwarf2.Proofs.Symbol.Length

namespace Dwarf2
namespace Build

variable {src : Source} {start s : State} {e c : Entry} {offset n : Nat} {id : SymbolId}

/-- The subrange has a count that is not negative, and its bounds stay within a signed word. -/
structure Counts (src : Source) (c : Entry) (n : Nat) : Prop where
  count : ∃ count, c.signed? src.view .count = some count ∧ count.toInt = n
  fits : ((c.signed? src.view .lowerBound).getD 0).toInt + n < 2 ^ 63

/-- Whatever upper bound is declared besides, there are as many values between the bounds as
the count says. -/
theorem Counts.elements {a : Symbol.ArrayType} (h : Counts src c n)
    (bounds : (a.min, a.max) = boundsOf src c) : a.elements = n := by
  obtain ⟨count, found, value⟩ := h.count
  have fits := h.fits
  simp only [boundsOf, found, Prod.mk.injEq] at bounds
  obtain ⟨hmin, hmax⟩ := bounds
  rw [← hmin] at fits hmax
  have low := a.min.le_toInt
  have high := count.toInt_lt
  have exact : a.max.toInt = a.min.toInt + n := by
    rw [hmax, Int64.toInt_add, value]
    exact Int.bmod_eq_of_le (by omega) (by omega)
  rw [Symbol.ArrayType.elements, exact, add_sub_cancel_left,
    Symbol.clamp_of_nonneg (Int.natCast_nonneg n) (by omega), Int.toNat_natCast]

/-- The array of an entry in the end. -/
theorem Grows.array (grows : Grows src {} start s)
    (fresh : ∀ offset, slot start offset = .unresolved) (he : src.tree.get? offset = some e)
    (tag : e.tag = .arrayType) (resolved : slot s offset = .resolved (some id)) :
    ∃ a, s.symbols.get? id = some (.array a) ∧ ArrayOf src (Stores src s e) e a := by
  obtain ⟨s₁, s₂, trace⟩ := grows.trace fresh he (by rw [tag]; nofun) resolved
  obtain ⟨steps, work, pending, eq⟩ := trace.runs
  rw [build, tag] at eq
  have run := work.run_buildArray pending (answers_resolveWithin src steps) eq
  by_cases children : e.abbreviation.hasChildren
  · rw [if_pos children] at run
    obtain ⟨_, a, ⟨⟩, exposed, array⟩ := run
    obtain ⟨_, -, ⟨⟩, stands⟩ := trace.stands exposed
    exact ⟨a, stands, array.imp (trace.stores grows fresh)⟩
  · rw [if_neg children] at run
    cases run.1

/-- With a count in the last subrange, an array is as long as that many elements.  The counts
of the subranges before it are lost. -/
theorem typeLength?_of_counted (src : Source) (symbols : Symbol.Table) (names : NameSupply)
    (calls : List Call) (offset : Nat) (e last : Entry) (id : SymbolId) (n : Nat) :
    let s := after src symbols names calls
    src.tree.get? offset = some e → e.tag = .arrayType → slot s offset = .resolved (some id) →
      (e.childrenOf .subrangeType).getLast? = some last → Counts src last n →
        ∃ a, s.symbols.get? id = some (.array a) ∧ Stores src s e e a.element ∧
          ∀ element length, a.element = some element →
            s.symbols.typeLength? element = some length →
              ∃ whole, s.symbols.typeLength? id = some whole ∧
                whole.toNat = min (length.toNat * n) (2 ^ 64 - 1) := by
  intro s he tag resolved hlast counts
  obtain ⟨a, here, array⟩ := (grows_after src symbols names calls).array (slot_new symbols names)
    he tag resolved
  have bounds := array.bounds_eq
  rw [lastBounds, hlast] at bounds
  refine ⟨a, here, array.element, fun element length of found => ?_⟩
  obtain ⟨whole, found', value⟩ := Symbol.Table.typeLength?_of_array here of found
  exact ⟨whole, found', by rw [value, counts.elements bounds]; rfl⟩

/-! ## An array of two dimensions

Two rows of three integers. -/

namespace Grid

/-- A subrange of which only its count is known. -/
def subrange (offset : Nat) : Entry :=
  ⟨offset, ⟨4, .subrangeType, false, [⟨.count, .data1⟩]⟩, [offset + 1], []⟩

def array : Entry :=
  ⟨3, ⟨3, .arrayType, true, [⟨.type, .ref1⟩]⟩, [4], [subrange 5, subrange 7]⟩

def source : Source where
  view := ⟨.little, #[1, 2, 4, 3, 1, 4, 2, 4, 3, 0, 0], #[], 0, 4⟩
  tree := .ofRoot
    ⟨0, ⟨1, .compileUnit, true, []⟩, [],
      [⟨1, ⟨2, .baseType, false, [⟨.byteSize, .data1⟩]⟩, [2], []⟩, array]⟩
    (by decide)
  image := ⟨0, []⟩

theorem size_tree : source.tree.size = 5 := by
  simp [source, array, subrange, Entry.Tree.size, Entry.Tree.ofRoot, Entry.fold, Entry.foldAll,
    Std.HashMap.size_insert]

theorem get?_array : source.tree.get? 3 = some array := by cbv

theorem counts : List.Forall₂ (Counts source) (array.childrenOf .subrangeType) [2, 3] :=
  .cons ⟨⟨2, by decide, by decide⟩, by decide⟩
    (.cons ⟨⟨3, by decide, by decide⟩, by decide⟩ .nil)

/-! What is there when the array has been asked for. -/

theorem slot_array : slot (after source {} {} [.resolve 3]) 3 = .resolved (some ⟨0⟩) := by
  rw [after_resolve size_tree]
  cbv

theorem get?_symbol : (after source {} {} [.resolve 3]).symbols.get? ⟨0⟩ =
    some (.array ⟨0, 3, some ⟨1⟩, none⟩) := by
  rw [after_resolve size_tree]
  cbv

theorem length_element :
    (after source {} {} [.resolve 3]).symbols.typeLength? ⟨1⟩ = some 4 := by
  rw [after_resolve size_tree]
  cbv

theorem length_array :
    (after source {} {} [.resolve 3]).symbols.typeLength? ⟨0⟩ = some 12 := by
  rw [after_resolve size_tree]
  cbv

end Grid

theorem typeLength?_grid :
    let s := after Grid.source {} {} [.resolve 3]
    Grid.source.tree.get? 3 = some Grid.array ∧ Grid.array.tag = .arrayType ∧
      slot s 3 = .resolved (some ⟨0⟩) ∧
      (Grid.array.childrenOf .subrangeType).getLast? = some (Grid.subrange 7) ∧
      Counts Grid.source (Grid.subrange 7) 3 ∧ s.symbols.typeLength? ⟨1⟩ = some 4 ∧
      ∃ whole, s.symbols.typeLength? ⟨0⟩ = some whole ∧
        whole.toNat = min ((4 : UInt64).toNat * 3) (2 ^ 64 - 1) := by
  intro s
  have last : (Grid.array.childrenOf .subrangeType).getLast? = some (Grid.subrange 7) := rfl
  have counts : Counts Grid.source (Grid.subrange 7) 3 := ⟨⟨3, by decide, by decide⟩, by decide⟩
  obtain ⟨a, here, -, length⟩ := typeLength?_of_counted Grid.source {} {} [.resolve 3] 3 Grid.array
    (Grid.subrange 7) ⟨0⟩ 3 Grid.get?_array rfl Grid.slot_array last counts
  cases here.symm.trans Grid.get?_symbol
  exact ⟨Grid.get?_array, rfl, Grid.slot_array, last, counts, Grid.length_element,
    length ⟨1⟩ 4 rfl Grid.length_element⟩

/-- The two rows are not counted: the length is that of one. -/
theorem dimension_lost :
    let s := after Grid.source {} {} [.resolve 3]
    Grid.source.tree.get? 3 = some Grid.array ∧ Grid.array.tag = .arrayType ∧
      slot s 3 = .resolved (some ⟨0⟩) ∧
      List.Forall₂ (Counts Grid.source) (Grid.array.childrenOf .subrangeType) [2, 3] ∧
      s.symbols.get? ⟨0⟩ = some (.array ⟨0, 3, some ⟨1⟩, none⟩) ∧
      s.symbols.typeLength? ⟨1⟩ = some 4 ∧ s.symbols.typeLength? ⟨0⟩ = some 12 ∧
      (12 : UInt64).toNat ≠ min ((4 : UInt64).toNat * [2, 3].prod) (2 ^ 64 - 1) :=
  ⟨Grid.get?_array, rfl, Grid.slot_array, Grid.counts, Grid.get?_symbol, Grid.length_element,
    Grid.length_array, by decide⟩

end Build
end Dwarf2
