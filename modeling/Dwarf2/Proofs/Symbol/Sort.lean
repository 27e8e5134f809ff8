/-
Sorting by a word that every item has for its key.

The sort is a stable one.  Items of one key stay in their order, so the items of a key are the
same list before and after.
-/
import Mathlib.Data.List.Pairwise

namespace Dwarf2
namespace Symbol

variable {α : Type} (key : α → UInt64)

theorem key_le_trans (a b c : α) (h : decide (key a ≤ key b) = true)
    (h' : decide (key b ≤ key c) = true) : decide (key a ≤ key c) = true :=
  decide_eq_true (UInt64.le_trans (of_decide_eq_true h) (of_decide_eq_true h'))

theorem key_le_total (a b : α) : (decide (key a ≤ key b) || decide (key b ≤ key a)) = true := by
  rw [Bool.or_eq_true, decide_eq_true_iff, decide_eq_true_iff]
  exact UInt64.le_total _ _

theorem pairwise_sort (items : List α) :
    (items.mergeSort fun a b => key a ≤ key b).Pairwise fun a b => key a ≤ key b :=
  (List.pairwise_mergeSort (key_le_trans key) (key_le_total key) items).imp of_decide_eq_true

theorem filter_sort (items : List α) (k : UInt64) :
    (items.mergeSort fun a b => key a ≤ key b).filter (key · = k) = items.filter (key · = k) := by
  have ordered : (items.filter (key · = k)).Pairwise fun a b => decide (key a ≤ key b) = true :=
    List.pairwise_of_forall_mem_list fun a ha b hb => by
      have ha := of_decide_eq_true (List.mem_filter.1 ha).2
      have hb := of_decide_eq_true (List.mem_filter.1 hb).2
      rw [ha, hb]
      exact decide_eq_true (UInt64.le_refl _)
  have kept : (items.filter (key · = k)).Sublist (items.mergeSort fun a b => key a ≤ key b) :=
    List.sublist_mergeSort (key_le_trans key) (key_le_total key) ordered List.filter_sublist
  have again : (items.filter (key · = k)).filter (key · = k) = items.filter (key · = k) := by
    simp
  have kept : (items.filter (key · = k)).Sublist
      ((items.mergeSort fun a b => key a ≤ key b).filter (key · = k)) :=
    again ▸ kept.filter _
  have length := ((List.mergeSort_perm items fun a b => key a ≤ key b).filter (key · = k)).length_eq
  exact (kept.eq_of_length length.symm).symm

/-- The items are in the order of their keys, and those of one key are as they were. -/
structure Sorts (items sorted : List α) : Prop where
  ascending : sorted.Pairwise fun a b => key a ≤ key b
  kept : ∀ k, sorted.filter (key · = k) = items.filter (key · = k)

theorem sorts_sort (items : List α) :
    Sorts key items (items.mergeSort fun a b => key a ≤ key b) :=
  ⟨pairwise_sort key items, filter_sort key items⟩

end Symbol
end Dwarf2
