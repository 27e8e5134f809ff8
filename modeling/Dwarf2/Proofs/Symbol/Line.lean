/-
Giving lines to functions.

A fact goes to its place by offset, so the list of a function stays in order, and the facts that
it had keep theirs.  Nothing else in the table changes.
-/
import Dwarf2.Proofs.Symbol.WellFormed

namespace Dwarf2
namespace Symbol
namespace Table

variable {t : Table} {fact : LineFact} {lines more : List LineFact}

theorem mem_insertLine? (eq : insertLine? fact lines = some more) (other : LineFact) :
    other ∈ more ↔ other = fact ∨ other ∈ lines := by
  induction lines generalizing more with
  | nil =>
    cases eq
    rw [List.mem_singleton, or_iff_left List.not_mem_nil]
  | cons first rest ih =>
    unfold insertLine? at eq
    split at eq
    · cases eq
      exact List.mem_cons
    · split at eq
      · cases eq
      · obtain ⟨rest', inserted, rfl⟩ := Option.map_eq_some_iff.1 eq
        rw [List.mem_cons, List.mem_cons, ih inserted, or_left_comm]

theorem sublist_insertLine? (eq : insertLine? fact lines = some more) : lines.Sublist more := by
  induction lines generalizing more with
  | nil => exact List.nil_sublist _
  | cons first rest ih =>
    unfold insertLine? at eq
    split at eq
    · cases eq
      exact List.sublist_cons_self _ _
    · split at eq
      · cases eq
      · obtain ⟨rest', inserted, rfl⟩ := Option.map_eq_some_iff.1 eq
        exact (ih inserted).cons_cons first

theorem pairwise_insertLine? (eq : insertLine? fact lines = some more)
    (ascending : lines.Pairwise fun a b => a.offset ≤ b.offset) :
    more.Pairwise fun a b => a.offset ≤ b.offset := by
  induction lines generalizing more with
  | nil =>
    cases eq
    exact List.pairwise_singleton _ _
  | cons first rest ih =>
    obtain ⟨behind, ascending'⟩ := List.pairwise_cons.1 ascending
    unfold insertLine? at eq
    split at eq
    · rename_i before
      cases eq
      have le : fact.offset ≤ first.offset := UInt64.le_of_lt before
      refine List.pairwise_cons.2 ⟨fun other mem => ?_, ascending⟩
      rcases List.mem_cons.1 mem with rfl | mem
      · exact le
      · exact UInt64.le_trans le (behind other mem)
    · rename_i notBefore
      split at eq
      · cases eq
      · obtain ⟨rest', inserted, rfl⟩ := Option.map_eq_some_iff.1 eq
        refine List.pairwise_cons.2 ⟨fun other mem => ?_, ih inserted ascending'⟩
        rcases (mem_insertLine? inserted other).1 mem with rfl | mem
        · exact UInt64.not_lt.1 notBefore
        · exact behind other mem

/-- A fact goes behind all that do not start later, if it is not one of them. -/
theorem insertLine?_eq_ite (fact : LineFact) (lines : List LineFact) :
    insertLine? fact lines =
      if fact ∈ lines.takeWhile (·.offset ≤ fact.offset) then none
      else some (lines.takeWhile (·.offset ≤ fact.offset) ++
        fact :: lines.dropWhile (·.offset ≤ fact.offset)) := by
  induction lines with
  | nil => rfl
  | cons first rest ih =>
    rw [insertLine?]
    split
    · rename_i before
      have later : ¬first.offset ≤ fact.offset := UInt64.not_le.2 before
      simp [later]
    · rename_i notBefore
      have le : first.offset ≤ fact.offset := UInt64.not_lt.1 notBefore
      split
      · rename_i same
        simp [same]
      · rename_i other
        rw [ih]
        simp only [List.takeWhile_cons, List.dropWhile_cons, le, decide_true, if_true,
          List.mem_cons, Ne.symm other, false_or]
        split <;> rfl

/-- A line is given to one function, which did not have it, or to none. -/
theorem addLine_cases (t : Table) (source : SourceId) (line address : UInt64) :
    t.addLine source line address = (false, t) ∨
      ∃ id f lines, t.nearest? address = some id ∧ t.get? id = some (.function f) ∧
        f.covers address = true ∧
        insertLine? ⟨source, line, address - f.address⟩ f.lines = some lines ∧
        t.addLine source line address = (true, t.updateFunction id fun f => { f with lines }) := by
  unfold addLine
  split
  · exact .inl rfl
  · rename_i id nearest
    split
    · exact .inl rfl
    · rename_i f there
      have there := get?_of_function? there
      split
      · rename_i covers
        split
        · rename_i lines inserted
          exact .inr ⟨id, f, lines, nearest, there, covers, inserted, rfl⟩
        · exact .inl rfl
      · exact .inl rfl

theorem gains_addLine (t : Table) (source : SourceId) (line address : UInt64) :
    Extends (fun _ => Gains) t (t.addLine source line address).2 := by
  rcases t.addLine_cases source line address with same | ⟨id, f, lines, -, there, -, inserted, eq⟩
  · rw [same]
    exact .refl (fun _ => .same) t
  · rw [eq]
    refine .updateFunction (fun _ => .same) fun g hg => ?_
    cases there.symm.trans hg
    exact .lines (sublist_insertLine? inserted)

theorem WellFormed.addLine (h : t.WellFormed) {source : SourceId}
    (inside : source.index < t.sources.size) (line address : UInt64) :
    (t.addLine source line address).2.WellFormed := by
  rcases t.addLine_cases source line address with same | ⟨id, f, lines, -, there, -, inserted, eq⟩
  · rw [same]
    exact h
  rw [eq]
  have develops : f.Develops { f with lines } :=
    { Function.Develops.refl f with lines := sublist_insertLine? inserted }
  refine wellFormed_iff.2 ((wellFormed_iff.1 h).updateFunction (fun g hg => ?_)
    (fun g hg holds => ?_) (.inr fun _ done => ⟨done.normalized, done.labels⟩))
  · cases there.symm.trans hg
    exact develops
  · cases there.symm.trans hg
    have sound := holds.function f rfl
    refine holds.develop develops (fun _ => .inl) (fun other mem => ?_)
      ⟨sound.parents, sound.blocks, pairwise_insertLine? inserted sound.lines⟩
    rcases (mem_insertLine? inserted other).1 mem with rfl | old
    · exact .inr inside
    · exact .inl old

end Table
end Symbol
end Dwarf2
