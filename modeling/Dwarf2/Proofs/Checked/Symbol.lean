/-
Giving lines to functions with steps that may panic.

The place of a line is found by two binary searches, and the lines between the two places are
looked at.  Both searches need the lines of the function to be in order, and the slice between
them is one only because they are.
-/
import Mathlib.Data.List.TakeWhile
import Dwarf2.Proofs.Checked.Step
import Dwarf2.Proofs.Symbol.Line

namespace Dwarf2
namespace Checked
namespace Symbol

open Dwarf2.Symbol (Block LineFact Table)

variable {α : Type}

/-- The index of a block is one less than the number of blocks that there are then. -/
def openBlock (t : Table) (id : SymbolId) (b : Block) : Checked (Option Nat × Table) :=
  match t.function? id with
  | none => return (none, t)
  | some f => do
    let index ← sub (f.blocks.push b).size 1
    return (some index, t.updateFunction id fun f => { f with blocks := f.blocks.push b })

/-- Where the items end that `p` accepts, by binary search. -/
def partitionPoint (p : α → Bool) (l : List α) : Checked Nat :=
  guarded ((l.dropWhile p).all (!p ·)) .unordered (l.takeWhile p).length

def between (l : List α) (first last : Nat) : Checked (List α) :=
  guarded (first ≤ last ∧ last ≤ l.length) .bounds ((l.take last).drop first)

def insertAt (l : List α) (place : Nat) (a : α) : Checked (List α) :=
  guarded (place ≤ l.length) .bounds (l.take place ++ a :: l.drop place)

def covers (f : Dwarf2.Symbol.Function) (address : UInt64) : Checked Bool := do
  if f.address ≤ address then
    return (← sub address f.address) ≤ f.length
  else
    return false

/-- Puts a fact behind all that do not start later; none if it is already among them. -/
def insertLine? (fact : LineFact) (lines : List LineFact) : Checked (Option (List LineFact)) := do
  let first ← partitionPoint (·.offset < fact.offset) lines
  let last ← partitionPoint (·.offset ≤ fact.offset) lines
  if fact ∈ (← between lines first last) then
    return none
  else
    return some (← insertAt lines last fact)

def addLine (t : Table) (source : SourceId) (line address : UInt64) :
    Checked (Bool × Table) :=
  match t.nearest? address with
  | none => return (false, t)
  | some id =>
    match t.function? id with
    | none => return (false, t)
    | some f => do
      if ← covers f address then
        let offset ← sub address f.address
        match ← insertLine? ⟨source, line, offset⟩ f.lines with
        | some lines => return (true, t.updateFunction id fun f => { f with lines })
        | none => return (false, t)
      else
        return (false, t)

theorem openBlock_eq (t : Table) (id : SymbolId) (b : Block) :
    openBlock t id b = .ok (t.openBlock id b) := by
  unfold openBlock Dwarf2.Symbol.Table.openBlock
  cases t.function? id with
  | none => rfl
  | some f =>
    have size : (f.blocks.push b).size = f.blocks.size + 1 := Array.size_push ..
    have index : sub (f.blocks.push b).size 1 = .ok f.blocks.size := by
      rw [sub, guarded_of (by omega), size, Nat.add_sub_cancel]
    dsimp only
    rw [index]
    rfl

theorem covers_eq (f : Dwarf2.Symbol.Function) (address : UInt64) :
    covers f address = .ok (f.covers address) := by
  unfold covers Dwarf2.Symbol.Function.covers
  split
  · rename_i le
    rw [sub, guarded_of le, ok_bind, decide_eq_decide.2 (and_iff_right le)]
    rfl
  · rename_i before
    rw [decide_eq_false (mt And.left before)]
    rfl

/-! ## The place of a line -/

/-- In a list that is in order, all items that are accepted come first. -/
theorem partitionPoint_eq {p : α → Bool} {l : List α} {R : α → α → Prop} (ordered : l.Pairwise R)
    (back : ∀ a b, R a b → p b → p a) : partitionPoint p l = .ok (l.takeWhile p).length := by
  refine guarded_of ?_ _ _
  induction l with
  | nil => rfl
  | cons a rest ih =>
    obtain ⟨before, ordered⟩ := List.pairwise_cons.1 ordered
    rw [List.dropWhile_cons]
    split
    · exact ih ordered
    · rename_i refused
      refine List.all_eq_true.2 fun b mem => ?_
      rcases List.mem_cons.1 mem with rfl | mem
      · simpa using refused
      · have := mt (back a b (before b mem)) refused
        simpa using this

/-- The lines that start before an offset are the first of those that do not start later. -/
theorem takeWhile_lt_isPrefix (offset : UInt64) (lines : List LineFact) :
    lines.takeWhile (·.offset < offset) <+: lines.takeWhile (·.offset ≤ offset) := by
  have both : (lines.takeWhile (·.offset ≤ offset)).takeWhile (·.offset < offset) =
      lines.takeWhile (·.offset < offset) := by
    rw [List.takeWhile_takeWhile]
    congr 1
    funext fact
    simpa using UInt64.le_of_lt
  exact both ▸ List.takeWhile_prefix _

/-- None of the lines that start before a fact is the fact. -/
theorem mem_between_iff {fact : LineFact} {lines : List LineFact} :
    fact ∈ (lines.takeWhile (·.offset ≤ fact.offset)).drop
        (lines.takeWhile (·.offset < fact.offset)).length ↔
      fact ∈ lines.takeWhile (·.offset ≤ fact.offset) := by
  obtain ⟨rest, parts⟩ := takeWhile_lt_isPrefix fact.offset lines
  have other : fact ∉ lines.takeWhile (·.offset < fact.offset) := fun mem => by
    simpa using List.mem_takeWhile_imp mem
  rw [← parts, List.drop_left, List.mem_append, or_iff_right other]

/-- The lines of a function are in order, so the place of a fact is found. -/
theorem insertLine?_eq {fact : LineFact} {lines : List LineFact}
    (ordered : lines.Pairwise fun a b => a.offset ≤ b.offset) :
    insertLine? fact lines = .ok (Table.insertLine? fact lines) := by
  have first := partitionPoint_eq (p := (·.offset < fact.offset)) ordered
    fun a b le before => by simpa using UInt64.lt_of_le_of_lt le (by simpa using before)
  have last := partitionPoint_eq (p := (·.offset ≤ fact.offset)) ordered
    fun a b le before => by simpa using UInt64.le_trans le (by simpa using before)
  have inside := (List.takeWhile_prefix (l := lines) (·.offset ≤ fact.offset)).length_le
  have upTo : lines.take (lines.takeWhile (·.offset ≤ fact.offset)).length =
      lines.takeWhile (·.offset ≤ fact.offset) :=
    (List.prefix_iff_eq_take.1 (List.takeWhile_prefix _)).symm
  have behind : lines.drop (lines.takeWhile (·.offset ≤ fact.offset)).length =
      lines.dropWhile (·.offset ≤ fact.offset) := by
    have parts := List.takeWhile_append_dropWhile (p := (·.offset ≤ fact.offset)) (l := lines)
    calc lines.drop (lines.takeWhile (·.offset ≤ fact.offset)).length
        = (lines.takeWhile (·.offset ≤ fact.offset) ++
            lines.dropWhile (·.offset ≤ fact.offset)).drop
              (lines.takeWhile (·.offset ≤ fact.offset)).length := by rw [parts]
      _ = lines.dropWhile (·.offset ≤ fact.offset) := List.drop_left
  have sliced := guarded_of (p := _ ∧ _)
    ⟨(takeWhile_lt_isPrefix fact.offset lines).length_le, inside⟩ .bounds
    ((lines.takeWhile (·.offset ≤ fact.offset)).drop
      (lines.takeWhile (·.offset < fact.offset)).length)
  rw [insertLine?, first, ok_bind, last, ok_bind, between, upTo, sliced, ok_bind,
    Table.insertLine?_eq_ite]
  simp only [mem_between_iff]
  split
  · rfl
  · rw [insertAt, guarded_of inside, upTo, behind]
    rfl

theorem addLine_eq {t : Table} (ordered : ∀ id f, t.get? id = some (.function f) →
      f.lines.Pairwise fun a b => a.offset ≤ b.offset)
    (source : SourceId) (line address : UInt64) :
    addLine t source line address = .ok (t.addLine source line address) := by
  unfold addLine Table.addLine
  cases t.nearest? address with
  | none => rfl
  | some id =>
    dsimp only
    cases there : t.function? id with
    | none => rfl
    | some f =>
      have sorted := ordered id f (Table.get?_of_function? there)
      dsimp only
      rw [covers_eq, ok_bind]
      split
      · rename_i inside
        have le : f.address ≤ address := (of_decide_eq_true inside).1
        rw [sub, guarded_of le, ok_bind, insertLine?_eq sorted, ok_bind]
        cases Table.insertLine? ⟨source, line, address - f.address⟩ f.lines with
        | none => rfl
        | some lines => rfl
      · rfl

end Symbol
end Checked
end Dwarf2
