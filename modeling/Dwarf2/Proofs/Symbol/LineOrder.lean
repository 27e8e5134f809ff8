/-
The lines of a function, in order.

The facts of a function come in any order, and some of them more than once.  Each goes to its
place by offset as it comes, so the list is at any time what one would get by putting the facts
down as they come, each the first time only, and sorting them by offset in the end.  The sort is
a stable one: facts at one offset stay in the order in which they came.
-/
import Dwarf2.Proofs.Symbol.Line
import Dwarf2.Proofs.Symbol.Operation
import Dwarf2.Proofs.Symbol.Sort

namespace Dwarf2
namespace Symbol

/-! ## Sorting by offset -/

abbrev Ascending (lines : List LineFact) : Prop :=
  lines.Pairwise fun a b => a.offset ≤ b.offset

/-- Facts at one offset stay in their order. -/
def byOffset (lines : List LineFact) : List LineFact :=
  lines.mergeSort fun a b => a.offset ≤ b.offset

variable {lines lines' : List LineFact} {fact : LineFact}

theorem ascending_byOffset (lines : List LineFact) : Ascending (byOffset lines) :=
  pairwise_sort LineFact.offset lines

theorem mem_byOffset : fact ∈ byOffset lines ↔ fact ∈ lines :=
  (List.mergeSort_perm lines _).mem_iff

/-- The facts at an offset, in their order. -/
def atOffset (offset : UInt64) (lines : List LineFact) : List LineFact :=
  lines.filter (·.offset = offset)

theorem atOffset_byOffset (offset : UInt64) (lines : List LineFact) :
    atOffset offset (byOffset lines) = atOffset offset lines :=
  filter_sort LineFact.offset lines offset

/-- Lists in order that have the same facts at every offset are the same. -/
theorem eq_of_atOffset (h : Ascending lines) (h' : Ascending lines')
    (same : ∀ offset, atOffset offset lines = atOffset offset lines') : lines = lines' := by
  induction lines generalizing lines' with
  | nil =>
    cases lines' with
    | nil => rfl
    | cons b rest' =>
      have := same b.offset
      simp [atOffset] at this
  | cons a rest ih =>
    cases lines' with
    | nil =>
      have := same a.offset
      simp [atOffset] at this
    | cons b rest' =>
      obtain ⟨before, h⟩ := List.pairwise_cons.1 h
      obtain ⟨before', h'⟩ := List.pairwise_cons.1 h'
      have le : a.offset ≤ b.offset := by
        have mem : b ∈ atOffset b.offset (a :: rest) := by
          rw [same]
          simp [atOffset]
        rcases List.mem_cons.1 (List.mem_filter.1 mem).1 with rfl | mem
        · exact UInt64.le_refl _
        · exact before b mem
      have ge : b.offset ≤ a.offset := by
        have mem : a ∈ atOffset a.offset (b :: rest') := by
          rw [← same]
          simp [atOffset]
        rcases List.mem_cons.1 (List.mem_filter.1 mem).1 with rfl | mem
        · exact UInt64.le_refl _
        · exact before' a mem
      have level : a.offset = b.offset := UInt64.le_antisymm le ge
      have heads := same a.offset
      simp only [atOffset, level, decide_true, List.filter_cons_of_pos, List.cons.injEq] at heads
      rw [heads.1, ih h h' fun offset => ?_]
      have tails := same offset
      simp only [atOffset, List.filter_cons, heads.1] at tails
      split at tails
      · exact List.tail_eq_of_cons_eq tails
      · exact tails

/-! ## Facts as they come -/

namespace Table

/-- The lines with one more fact, or as they are if they have it. -/
def record (lines : List LineFact) (fact : LineFact) : List LineFact :=
  (insertLine? fact lines).getD lines

/-- In a list in order, what does not start soon enough has only later facts behind it. -/
theorem lt_offset_of_mem_dropWhile (ascending : Ascending lines) {offset : UInt64}
    {other : LineFact} (mem : other ∈ lines.dropWhile (·.offset ≤ offset)) :
    offset < other.offset := by
  induction lines with
  | nil => cases mem
  | cons first rest ih =>
    obtain ⟨before, ascending⟩ := List.pairwise_cons.1 ascending
    rw [List.dropWhile_cons] at mem
    split at mem
    · exact ih ascending mem
    · rename_i late
      have late : offset < first.offset := UInt64.not_le.1 fun le => late (decide_eq_true le)
      rcases List.mem_cons.1 mem with rfl | mem
      · exact late
      · exact UInt64.lt_of_lt_of_le late (before other mem)

theorem insertLine?_eq_none_iff (ascending : Ascending lines) :
    insertLine? fact lines = none ↔ fact ∈ lines := by
  have parts := List.takeWhile_append_dropWhile (p := (·.offset ≤ fact.offset)) (l := lines)
  rw [insertLine?_eq_ite]
  split
  · rename_i mem
    exact ⟨fun _ => List.takeWhile_sublist _ |>.mem mem, fun _ => rfl⟩
  · rename_i absent
    refine ⟨nofun, fun mem => ?_⟩
    rw [← parts, List.mem_append, or_iff_right absent] at mem
    exact absurd (lt_offset_of_mem_dropWhile ascending mem) (UInt64.lt_irrefl _)

/-- The fact comes last of those at its offset. -/
theorem atOffset_insertLine? (ascending : Ascending lines) {more : List LineFact}
    (eq : insertLine? fact lines = some more) (offset : UInt64) :
    atOffset offset more = atOffset offset (lines ++ [fact]) := by
  have parts := List.takeWhile_append_dropWhile (p := (·.offset ≤ fact.offset)) (l := lines)
  rw [insertLine?_eq_ite] at eq
  split at eq
  · cases eq
  cases eq
  have later : ∀ other ∈ lines.dropWhile (·.offset ≤ fact.offset), fact.offset < other.offset :=
    fun _ => lt_offset_of_mem_dropWhile ascending
  generalize lines.takeWhile (·.offset ≤ fact.offset) = front at parts ⊢
  generalize lines.dropWhile (·.offset ≤ fact.offset) = back at parts later ⊢
  rw [← parts]
  by_cases here : fact.offset = offset
  · have none : back.filter (·.offset = offset) = [] := by
      refine List.filter_eq_nil_iff.2 fun other mem => ?_
      have apart : fact.offset ≠ other.offset := UInt64.ne_of_lt (later other mem)
      simpa [← here] using Ne.symm apart
    simp [atOffset, here, none]
  · simp [atOffset, here]

theorem record_byOffset (lines : List LineFact) (fact : LineFact) :
    record (byOffset lines) fact =
      if fact ∈ lines then byOffset lines else byOffset (lines ++ [fact]) := by
  have ascending := ascending_byOffset lines
  unfold record
  cases inserted : insertLine? fact (byOffset lines) with
  | none =>
    have mem := (insertLine?_eq_none_iff ascending).1 inserted
    rw [if_pos (mem_byOffset.1 mem)]
    rfl
  | some more =>
    have absent : fact ∉ lines := fun mem => by
      have := (insertLine?_eq_none_iff ascending).2 (mem_byOffset.2 mem)
      rw [inserted] at this
      cases this
    rw [if_neg absent, Option.getD_some]
    refine eq_of_atOffset (pairwise_insertLine? inserted ascending) (ascending_byOffset _)
      fun offset => ?_
    rw [atOffset_insertLine? ascending inserted, atOffset_byOffset]
    have old := atOffset_byOffset offset lines
    simp only [atOffset, List.filter_append] at old ⊢
    rw [old]

/-- Facts that are recorded as they come are sorted in the end, each the first time it comes. -/
theorem foldl_record (facts : List LineFact) :
    facts.foldl record (byOffset lines.eraseDups) = byOffset (lines ++ facts).eraseDups := by
  induction facts generalizing lines with
  | nil => rw [List.append_nil, List.foldl_nil]
  | cons fact rest ih =>
    have one : record (byOffset lines.eraseDups) fact = byOffset (lines ++ [fact]).eraseDups := by
      rw [record_byOffset, List.eraseDups_append]
      simp only [List.mem_eraseDups]
      split
      · rename_i mem
        simp [List.removeAll, mem]
      · rename_i absent
        simp [List.removeAll, absent, List.eraseDups_cons]
    rw [List.foldl_cons, one, ih, List.append_assoc]
    rfl

theorem eraseDups_of_nodup (h : lines.Nodup) : lines.eraseDups = lines := by
  induction lines with
  | nil => rfl
  | cons a rest ih =>
    obtain ⟨absent, h⟩ := List.nodup_cons.1 h
    have kept : rest.filter (fun b => !b == a) = rest := by
      refine List.filter_eq_self.2 fun b mem => ?_
      have : b ≠ a := fun same => absent (same ▸ mem)
      simp [this]
    rw [List.eraseDups_cons, kept, ih h]

/-! ## Facts in another order -/

theorem perm_insertLine? {more : List LineFact} (inserted : insertLine? fact lines = some more) :
    more.Perm (fact :: lines) := by
  rw [insertLine?_eq_ite] at inserted
  split at inserted
  · cases inserted
  · rw [← Option.some.inj inserted]
    refine List.perm_middle.trans ?_
    rw [List.takeWhile_append_dropWhile]

/-- Where a fact has been put down, that one finds no place any more, and every other finds one as
before.  This is so in lists that are not in order, too. -/
theorem insertLine?_eq_none_iff_of_inserted {more : List LineFact}
    (inserted : insertLine? fact lines = some more) (other : LineFact) :
    insertLine? other more = none ↔ other = fact ∨ insertLine? other lines = none := by
  have apart (first : LineFact) (before : other.offset < first.offset) : other ≠ first :=
    fun same => UInt64.lt_irrefl _ (same ▸ before)
  -- Both searches end at the first fact that starts later, unless one of them has ended before.
  induction lines generalizing more with
  | nil =>
    cases inserted
    by_cases before : other.offset < fact.offset
    · simp [insertLine?, before, apart fact before]
    · simp [insertLine?, before, eq_comm]
  | cons first rest ih =>
    unfold insertLine? at inserted
    split at inserted
    · rename_i later
      cases inserted
      by_cases before : other.offset < fact.offset
      · have earlier := UInt64.lt_trans before later
        simp [insertLine?, before, earlier, apart fact before]
      · rw [insertLine?, if_neg before]
        by_cases same : fact = other
        · simp [same]
        · simp [same, Ne.symm same]
    · rename_i notLater
      split at inserted
      · cases inserted
      · rename_i different
        obtain ⟨more, placed, rfl⟩ := Option.map_eq_some_iff.1 inserted
        rw [insertLine?, insertLine?]
        by_cases before : other.offset < first.offset
        · have : other ≠ fact := fun same => notLater (same ▸ before)
          simp [before, this]
        · rw [if_neg before, if_neg before]
          by_cases same : first = other
          · simp [same]
          · simp [same, ih placed]

/-- How often a fact is there in the end does not depend on when it comes. -/
theorem count_foldl_record (lines facts : List LineFact) (fact : LineFact) :
    (facts.foldl record lines).count fact =
      lines.count fact + if fact ∈ facts ∧ insertLine? fact lines ≠ none then 1 else 0 := by
  induction facts generalizing lines with
  | nil => simp
  | cons first rest ih =>
    rw [List.foldl_cons, ih]
    by_cases same : fact = first
    · subst same
      cases inserted : insertLine? fact lines with
      | none => simp [record, inserted]
      | some more =>
        have gone := (insertLine?_eq_none_iff_of_inserted inserted fact).2 (.inl rfl)
        simp [record, inserted, gone, (perm_insertLine? inserted).count_eq]
    · have mem : fact ∈ first :: rest ↔ fact ∈ rest := by simp [same]
      cases inserted : insertLine? first lines with
      | none => simp [record, inserted, mem]
      | some more =>
        have kept := insertLine?_eq_none_iff_of_inserted inserted fact
        rw [or_iff_right same] at kept
        simp [record, inserted, kept, mem, (perm_insertLine? inserted).count_eq, Ne.symm same]

theorem perm_foldl_record {facts facts' : List LineFact} (perm : facts.Perm facts')
    (lines : List LineFact) :
    (facts.foldl record lines).Perm (facts'.foldl record lines) := by
  rw [List.perm_iff_count]
  intro fact
  simp only [count_foldl_record, perm.mem_iff]

end Table
end Symbol
end Dwarf2
