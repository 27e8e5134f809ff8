/-
The names that a supply gives.

A label may end the way a number does, but what stands behind the last underscore of a name is the
counter, which no two of them have in common.  The counter is a number of any size: kept in a word
it would give the same names as long as there are fewer than `2 ^ 64`.  `Advances` is all that ever
happens to a supply: it gives names, one after another.
-/
import Dwarf2.NameSupply

namespace Dwarf2
namespace NameSupply

variable {label : String} {labels labels' : List String} {names names' names'' : NameSupply}

/-! ## Names are told apart by their numbers -/

theorem underscore_notMem_repr (n : Nat) : '_' ∉ n.repr.toList := by
  rw [Nat.toList_repr]
  exact Nat.underscore_not_in_toDigits

theorem repr_inj {n n' : Nat} (eq : n.repr.toList = n'.repr.toList) : n = n' := by
  rw [Nat.toList_repr, Nat.toList_repr] at eq
  have parsed := congrArg (fun digits => Nat.ofDigitChars 10 digits 0) eq
  simpa only [Nat.ofDigitChars_ten_toDigits] using parsed

/-- What stands behind the last `mark` of a text is no longer for another text before it. -/
theorem eq_of_append_cons_eq {α : Type} {mark : α} {front back front' back' : List α}
    (unmarked : mark ∉ back) (unmarked' : mark ∉ back')
    (eq : front ++ mark :: back = front' ++ mark :: back') : front = front' ∧ back = back' := by
  rw [List.append_eq_append_iff] at eq
  obtain ⟨more, rfl, eq⟩ | ⟨more, rfl, eq⟩ := eq
  · cases more with
    | nil => exact ⟨(List.append_nil _).symm, (List.cons.inj eq).2⟩
    | cons _ more =>
      rw [(List.cons.inj eq).2] at unmarked
      exact absurd (by simp) unmarked
  · cases more with
    | nil => exact ⟨List.append_nil _, (List.cons.inj eq).2.symm⟩
    | cons _ more =>
      rw [(List.cons.inj eq).2] at unmarked'
      exact absurd (by simp) unmarked'

/-- Whatever the labels end with, a name tells its label and its number. -/
theorem numbered_inj {label label' : String} {number number' : Nat}
    (eq : label ++ "_" ++ number.repr = label' ++ "_" ++ number'.repr) :
    label = label' ∧ number = number' := by
  have chars (label : String) (number : Nat) : (label ++ "_" ++ number.repr).toList =
      label.toList ++ '_' :: number.repr.toList := by
    rw [String.toList_append, String.toList_append, List.append_assoc]
    rfl
  have eq := congrArg String.toList eq
  rw [chars, chars] at eq
  obtain ⟨labels, numbers⟩ :=
    eq_of_append_cons_eq (underscore_notMem_repr number) (underscore_notMem_repr number') eq
  exact ⟨String.toList_inj.1 labels, repr_inj numbers⟩

/-! ## One name after another -/

/-- The names for some labels, and what is left of the supply. -/
def freshAll : List String → NameSupply → List String × NameSupply
  | [], names => ([], names)
  | label :: labels, names =>
    let (name, names) := names.fresh label
    let (rest, names) := names.freshAll labels
    (name :: rest, names)

theorem freshAll_append (labels labels' : List String) (names : NameSupply) :
    names.freshAll (labels ++ labels') =
      ((names.freshAll labels).1 ++ ((names.freshAll labels).2.freshAll labels').1,
        ((names.freshAll labels).2.freshAll labels').2) := by
  induction labels generalizing names with
  | nil => rfl
  | cons label labels ih =>
    simp only [List.cons_append, freshAll, ih]

/-- The labels with one number after another. -/
def numbered (first : Nat) (labels : List String) : List String :=
  labels.mapIdx fun i label => label ++ "_" ++ (first + i).repr

theorem numbered_cons (first : Nat) (label : String) (labels : List String) :
    numbered first (label :: labels) =
      (label ++ "_" ++ first.repr) :: numbered (first + 1) labels := by
  simp only [numbered, List.mapIdx_cons, Nat.add_zero, Nat.add_assoc, Nat.add_comm 1]

/-- The counter alone tells the numbers, and each name is kept in mind. -/
theorem freshAll_eq (labels : List String) (names : NameSupply) :
    names.freshAll labels = (numbered names.next labels,
      ⟨names.next + labels.length, (numbered names.next labels).reverse ++ names.issued⟩) := by
  induction labels generalizing names with
  | nil => rfl
  | cons label labels ih =>
    rw [freshAll, fresh]
    dsimp only
    rw [ih, numbered_cons, List.length_cons, List.reverse_cons, List.append_assoc]
    simp only [Nat.add_assoc, Nat.add_comm 1, List.singleton_append]

theorem nodup_numbered (first : Nat) (labels : List String) : (numbered first labels).Nodup := by
  refine List.pairwise_iff_getElem.2 fun i j _ _ before eq => ?_
  simp only [numbered, List.getElem_mapIdx] at eq
  have := (numbered_inj eq).2
  omega

example : (freshAll ["udt", "udt_0", "udt"] {}).1 = ["udt_0", "udt_0_1", "udt_2"] := by decide

/-! ## What happens to a supply -/

/-- Names were given for some labels, and nothing else happened. -/
def Advances (names names' : NameSupply) : Prop :=
  ∃ labels, names' = (names.freshAll labels).2

namespace Advances

theorem refl (names : NameSupply) : names.Advances names :=
  ⟨[], rfl⟩

theorem fresh (label : String) (names : NameSupply) : names.Advances (names.fresh label).2 :=
  ⟨[label], rfl⟩

theorem trans (h : names.Advances names') (h' : names'.Advances names'') :
    names.Advances names'' := by
  obtain ⟨labels, rfl⟩ := h
  obtain ⟨labels', rfl⟩ := h'
  exact ⟨labels ++ labels', by rw [freshAll_append]⟩

theorem le (h : names.Advances names') : names.next ≤ names'.next := by
  obtain ⟨labels, rfl⟩ := h
  rw [freshAll_eq]
  exact Nat.le_add_right ..

end Advances
end NameSupply
end Dwarf2
