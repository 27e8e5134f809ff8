/-
Numbers with more groups than they need.

Groups that say nothing may stand behind those of a number: zeros, or ones if it is negative.
There is no other way to spell a number: `spells_iff` and `spellsSigned_iff` say that its groups
are the shortest ones and some of these.  So the number that is read does not tell how many
there were.
-/
import Dwarf2.Proofs.Checked.Number
import Dwarf2.Proofs.Section.Taken

namespace Dwarf2
namespace Leb128

variable {group fill last : UInt8} {groups : List UInt8}

/-! ## Groups behind the last one -/

/-- The group with the mark of one that is not the last. -/
def continued (group : UInt8) : UInt8 :=
  group ||| 0x80

def extend (fill : UInt8) (groups : List UInt8) : List UInt8 :=
  groups.map continued ++ [fill]

/-- With so many groups more, that say nothing but what `fill` says. -/
def padded (fill : UInt8) : (count : Nat) → List UInt8 → List UInt8
  | 0, groups => groups
  | count + 1, groups => padded fill count (extend fill groups)

/-- What stands behind a number, as often as one likes. -/
def signGroup (n : Int) : UInt8 :=
  if n < 0 then 0x7f else 0

theorem or_mark (n : Nat) (small : n < 256) : n ||| 128 = n % 128 + 128 := by
  have all : ∀ i : Fin 256, i.val ||| 128 = i.val % 128 + 128 := by decide +kernel
  exact all ⟨n, small⟩

theorem toNat_continued (group : UInt8) : (continued group).toNat = group.toNat % 128 + 128 := by
  rw [continued, UInt8.toNat_or]
  exact or_mark _ group.toNat_lt

theorem isLast_continued (group : UInt8) : isLast (continued group) = false := by
  rw [isLast_eq_false_iff, toNat_continued]
  omega

theorem continued_eq_self (marked : isLast group = false) : continued group = group := by
  rw [isLast_eq_false_iff] at marked
  have := group.toNat_lt
  apply UInt8.toNat.inj
  rw [toNat_continued]
  omega

theorem isLast_iff (group : UInt8) : isLast group = true ↔ group &&& 0x80 = 0 := by
  have place : (0x80 : UInt8).toNat = 2 ^ 7 := rfl
  have := group.toNat_lt
  rw [isLast_eq_true_iff, and_bit_eq_zero_iff group place]
  omega

theorem closed_extend (groups : List UInt8) (marked : isLast fill = true) :
    Closed (extend fill groups) := by
  refine ⟨groups.map continued, fill, rfl, fun other mem => ?_, marked⟩
  obtain ⟨group, -, rfl⟩ := List.mem_map.1 mem
  exact isLast_continued group

theorem value_extend (groups : List UInt8) : value (extend 0 groups) = value groups := by
  induction groups with
  | nil => rfl
  | cons group rest ih =>
    have parts : extend 0 (group :: rest) = continued group :: extend 0 rest := rfl
    rw [parts, value_cons, value_cons, ih, toNat_continued]
    omega

theorem isLast_signGroup (n : Int) : isLast (signGroup n) = true := by
  unfold signGroup
  split <;> rfl

theorem signedValue_signGroup (n : Int) : signedValue [signGroup n] = if n < 0 then -1 else 0 := by
  unfold signGroup
  split <;> rfl

/-- The sign of the groups is that of the last one, and of the group that is put behind it. -/
theorem signedValue_extend {n : Int} (more : groups ≠ []) (sign : signedValue groups < 0 ↔ n < 0) :
    signedValue (extend (signGroup n) groups) = signedValue groups := by
  induction groups with
  | nil => exact absurd rfl more
  | cons group rest ih =>
    have parts : extend (signGroup n) (group :: rest) =
        continued group :: extend (signGroup n) rest := rfl
    have low := toNat_continued group
    rw [parts, signedValue_cons _ (by simp [extend])]
    by_cases single : rest = []
    · subst single
      have alone : extend (signGroup n) [] = [signGroup n] := rfl
      rw [signedValue_single] at sign ⊢
      rw [alone, signedValue_signGroup]
      split at sign <;> split <;> omega
    · rw [signedValue_cons _ single] at sign ⊢
      rw [ih single (by omega)]
      omega

theorem Spells.padded {n : Nat} (h : Spells groups n) (count : Nat) :
    Spells (padded 0 count groups) n := by
  induction count generalizing groups with
  | zero => exact h
  | succ count ih => exact ih ⟨closed_extend groups rfl, (value_extend groups).trans h.2⟩

theorem SpellsSigned.padded {n : Int} (h : SpellsSigned groups n) (count : Nat) :
    SpellsSigned (padded (signGroup n) count groups) n := by
  induction count generalizing groups with
  | zero => exact h
  | succ count ih =>
    have kept : signedValue (extend (signGroup n) groups) = signedValue groups :=
      signedValue_extend h.1.ne_nil (by rw [h.2])
    exact ih ⟨closed_extend groups (isLast_signGroup n), kept.trans h.2⟩

/-! ## All spellings of a number -/

theorem padded_cons (marked : isLast group = false) (count : Nat) :
    padded fill count (group :: groups) = group :: padded fill count groups := by
  induction count generalizing groups with
  | zero => rfl
  | succ count ih =>
    have parts : extend fill (group :: groups) = group :: extend fill groups := by
      rw [extend, List.map_cons, continued_eq_self marked]
      rfl
    rw [padded, parts, ih]
    rfl

theorem padded_single (group : UInt8) (count : Nat) :
    padded fill (count + 1) [group] = continued group :: padded fill count [fill] := by
  have parts : extend fill [group] = [continued group, fill] := rfl
  rw [padded, parts, padded_cons (isLast_continued group)]

theorem continued_ofNat (marked : isLast group = false) :
    continued (UInt8.ofNat (group.toNat % 128)) = group := by
  rw [isLast_eq_false_iff] at marked
  have := group.toNat_lt
  apply UInt8.toNat.inj
  rw [toNat_continued, toNat_ofNat_byte (by omega)]
  omega

theorem ofNat_continued (marked : isLast group = false) :
    UInt8.ofNat (group.toNat % 128 + 128) = group := by
  rw [isLast_eq_false_iff] at marked
  have := group.toNat_lt
  apply UInt8.toNat.inj
  rw [toNat_ofNat_byte (by omega)]
  omega

theorem shortest_single (marked : isLast last = true) : shortest (value [last]) = [last] := by
  rw [isLast_eq_true_iff] at marked
  have same : value [last] = last.toNat := by
    rw [value_cons, value_nil]
    omega
  rw [same, shortest, if_pos marked, UInt8.ofNat_toNat]

theorem exists_padded {front : List UInt8} (before : ∀ group ∈ front, isLast group = false)
    (marked : isLast last = true) :
    ∃ count, front ++ [last] = padded 0 count (shortest (value (front ++ [last]))) := by
  induction front with
  | nil => exact ⟨0, (shortest_single marked).symm⟩
  | cons group front ih =>
    have first : isLast group = false := before group List.mem_cons_self
    obtain ⟨count, rest⟩ := ih fun other mem => before other (List.mem_cons_of_mem group mem)
    rw [List.cons_append, value_cons]
    generalize value (front ++ [last]) = high at rest ⊢
    by_cases zero : high = 0
    · -- All that comes behind the group is padding.
      subst zero
      refine ⟨count + 1, ?_⟩
      rw [rest, shortest, if_pos (by omega), shortest, if_pos (by omega), padded_single]
      rw [Nat.mul_zero, Nat.add_zero, continued_ofNat first]
      rfl
    · refine ⟨count, ?_⟩
      have low : (group.toNat % 128 + 128 * high) % 128 = group.toNat % 128 := by omega
      have above : (group.toNat % 128 + 128 * high) / 128 = high := by omega
      rw [shortest, if_neg (by omega), low, above, ofNat_continued first, padded_cons first, ← rest]

/-- The groups of a number are the shortest ones, padded with zeros. -/
theorem spells_iff {n : Nat} :
    Spells groups n ↔ ∃ count, groups = padded 0 count (shortest n) := by
  constructor
  · rintro ⟨⟨front, last, rfl, before, marked⟩, rfl⟩
    exact exists_padded before marked
  · rintro ⟨count, rfl⟩
    exact (spells_shortest n).padded count

example : padded 0 2 [0x01] = [0x81, 0x80, 0x00] := by decide

theorem shortestSigned_single (marked : isLast last = true) :
    shortestSigned (signedValue [last]) = [last] := by
  rw [isLast_eq_true_iff] at marked
  have small : -64 ≤ signedValue [last] ∧ signedValue [last] < 64 := by
    rw [signedValue_single]
    split <;> omega
  have same : (signedValue [last] % 128).toNat = last.toNat := by
    rw [signedValue_single]
    split <;> omega
  rw [shortestSigned, if_pos small, same, UInt8.ofNat_toNat]

theorem shortestSigned_of_sign {n : Int} (sign : n = if n < 0 then -1 else 0) :
    shortestSigned n = [signGroup n] := by
  have single := shortestSigned_single (isLast_signGroup n)
  rwa [signedValue_signGroup, ← sign] at single

theorem exists_padded_signed {front : List UInt8}
    (before : ∀ group ∈ front, isLast group = false) (marked : isLast last = true) :
    let n := signedValue (front ++ [last])
    ∃ count, front ++ [last] = padded (signGroup n) count (shortestSigned n) := by
  induction front with
  | nil => exact ⟨0, (shortestSigned_single marked).symm⟩
  | cons group front ih =>
    have first : isLast group = false := before group List.mem_cons_self
    obtain ⟨count, rest⟩ := ih fun other mem => before other (List.mem_cons_of_mem group mem)
    dsimp only
    rw [List.cons_append, signedValue_cons _ (by simp)]
    generalize signedValue (front ++ [last]) = high at rest ⊢
    have sign : signGroup (group.toNat % 128 + 128 * high) = signGroup high := by
      unfold signGroup
      split <;> split <;> first | rfl | omega
    rw [sign]
    by_cases small : -64 ≤ (group.toNat % 128 + 128 * high : Int) ∧
        (group.toNat % 128 + 128 * high : Int) < 64
    · -- All that comes behind the group is its sign.
      refine ⟨count + 1, ?_⟩
      have low : ((group.toNat % 128 + 128 * high : Int) % 128).toNat = group.toNat % 128 := by
        omega
      rw [shortestSigned, if_pos small, low, padded_single, continued_ofNat first, rest,
        shortestSigned_of_sign (by split <;> omega)]
    · refine ⟨count, ?_⟩
      have low : ((group.toNat % 128 + 128 * high : Int) % 128).toNat = group.toNat % 128 := by
        omega
      have above : (group.toNat % 128 + 128 * high : Int) / 128 = high := by omega
      rw [shortestSigned, if_neg small, low, above, ofNat_continued first, padded_cons first,
        ← rest]

/-- The groups of an integer are the shortest ones, padded with its sign. -/
theorem spellsSigned_iff {n : Int} :
    SpellsSigned groups n ↔ ∃ count, groups = padded (signGroup n) count (shortestSigned n) := by
  constructor
  · rintro ⟨⟨front, last, rfl, before, marked⟩, rfl⟩
    exact exists_padded_signed before marked
  · rintro ⟨count, rfl⟩
    exact (spellsSigned_shortestSigned n).padded count

example : padded (signGroup (-2)) 2 [0x7e] = [0xfe, 0xff, 0x7f] := by decide

/-! ## What is read from bytes -/

section Read

variable {bytes : Bytes} {start : Nat}

theorem isSome_groups?_iff :
    (groups? bytes start).isSome ↔ ∃ byte ∈ bytes.rest start, byte &&& 0x80 = 0 := by
  have missing : groups? bytes start = none ↔ ∀ byte ∈ bytes.rest start, isLast byte = false := by
    rw [groups?, Option.map_eq_none_iff, last?, Bytes.indexFrom?_eq_none_iff]
  rw [← not_iff_not, Option.not_isSome_iff_eq_none, missing]
  simp only [← isLast_iff, not_exists, not_and, Bool.not_eq_true]

theorem groups?_of_holds (closed : Closed groups) (holds : bytes.Holds start groups) :
    groups? bytes start = some groups := by
  obtain ⟨front, last, rfl, before, marked⟩ := closed
  have found : last? bytes start = some (start + front.length) :=
    Bytes.indexFrom?_of_holds holds before marked
  have taken := holds.extract_eq
  rw [List.length_append, List.length_singleton, ← Nat.add_assoc] at taken
  rw [groups?, found, Option.map_some, taken]

/-- The groups end at the first byte that is marked as the last one. -/
theorem groups?_eq_some_iff :
    groups? bytes start = some groups ↔ Closed groups ∧ groups <+: bytes.rest start := by
  constructor
  · intro found
    obtain ⟨stop, at_stop, rfl⟩ := Option.map_eq_some_iff.1 found
    obtain ⟨last, parts, before, marked⟩ := Bytes.between_of_indexFrom? at_stop
    have ⟨le, inside⟩ := Bytes.indexFrom?_eq_some at_stop
    refine ⟨⟨bytes.between start stop, last, parts, before, marked⟩, ?_⟩
    exact ⟨_, Bytes.between_append_rest (Nat.le_add_right_of_le le) inside⟩
  · rintro ⟨closed, back, parts⟩
    have inside : start ≤ bytes.size := by
      by_contra past
      rw [Bytes.rest_eq_nil_iff.2 (by omega)] at parts
      exact closed.ne_nil (List.append_eq_nil_iff.1 parts).1
    exact groups?_of_holds closed (Bytes.holds_of_rest inside parts.symm)

theorem holds_append (before groups after : List UInt8) :
    Bytes.Holds (before ++ groups ++ after).toArray before.length groups :=
  ⟨before, after, rfl, rfl⟩

theorem isZero_iff_unsigned (groups : List UInt8) :
    isZero groups = true ↔ unsigned groups = 0 := by
  rw [isZero_iff, ← UInt64.toNat_inj, toNat_unsigned, UInt64.toNat_zero]
  omega

/-- The largest word stands for numbers that are larger, so it is no bound. -/
theorem unsigned_le_iff (groups : List UInt8) {bound : UInt64} (below : bound.toNat < 2 ^ 64 - 1) :
    unsigned groups ≤ bound ↔ value groups ≤ bound.toNat := by
  rw [UInt64.le_iff_toNat_le, toNat_unsigned]
  omega

theorem toNat_unsigned_of_lt {groups : List UInt8} (small : value groups < 2 ^ 64) :
    (unsigned groups).toNat = value groups := by
  rw [toNat_unsigned]
  omega

theorem uint32?_eq (groups : List UInt8) : uint32? groups =
    if value groups < 2 ^ 32 then some (UInt32.ofNat (value groups)) else none := by
  have room : unsigned groups ≤ 0xffffffff ↔ value groups < 2 ^ 32 :=
    (unsigned_le_iff groups (by decide)).trans Nat.lt_succ_iff.symm
  simp only [uint32?, room]
  split
  · rename_i fits
    congr 1
    apply UInt32.toNat.inj
    rw [UInt64.toNat_toUInt32, UInt32.toNat_ofNat', toNat_unsigned_of_lt (by omega)]
  · rfl

theorem uint16?_eq (groups : List UInt8) : uint16? groups =
    if value groups < 2 ^ 16 then some (UInt16.ofNat (value groups)) else none := by
  have room : unsigned groups ≤ 0xffff ↔ value groups < 2 ^ 16 :=
    (unsigned_le_iff groups (by decide)).trans Nat.lt_succ_iff.symm
  simp only [uint16?, room]
  split
  · rename_i fits
    congr 1
    apply UInt16.toNat.inj
    rw [UInt64.toNat_toUInt16, UInt16.toNat_ofNat', toNat_unsigned_of_lt (by omega)]
  · rfl

end Read

theorem closed_iff : Closed groups ↔ ∃ front last, groups = front ++ [last] ∧
    (∀ group ∈ front, group &&& 0x80 ≠ 0) ∧ last &&& 0x80 = 0 := by
  simp only [Closed, ← Bool.not_eq_true, isLast_iff, ne_eq]

/-- Any byte that is marked as the last one ends a number, which is that of the bytes before it
however many there are. -/
theorem decodes_unsigned (bytes : Bytes) (start : Nat) :
    ((groups? bytes start).isSome ↔ ∃ byte ∈ bytes.rest start, byte &&& 0x80 = 0) ∧
    (∀ groups, groups? bytes start = some groups ↔
      (∃ front last, groups = front ++ [last] ∧ (∀ group ∈ front, group &&& 0x80 ≠ 0) ∧
        last &&& 0x80 = 0) ∧ groups <+: bytes.rest start) ∧
    (∀ groups, Checked.Leb128.unsigned groups = .ok (unsigned groups) ∧
      (unsigned groups).toNat = min (value groups) (2 ^ 64 - 1) ∧
      (isZero groups = true ↔ unsigned groups = 0) ∧
      uint32? groups =
        (if value groups < 2 ^ 32 then some (UInt32.ofNat (value groups)) else none) ∧
      uint16? groups =
        (if value groups < 2 ^ 16 then some (UInt16.ofNat (value groups)) else none)) ∧
    ∀ (v : UInt64) (count : Nat) (before after : List UInt8),
      let groups := padded 0 count (shortest v.toNat)
      groups? (before ++ groups ++ after).toArray before.length = some groups ∧
        unsigned groups = v := by
  refine ⟨isSome_groups?_iff, fun groups => ?_, fun groups => ?_, fun v count before after => ?_⟩
  · rw [groups?_eq_some_iff, closed_iff]
  · exact ⟨Checked.Leb128.unsigned_eq groups, toNat_unsigned groups, isZero_iff_unsigned groups,
      uint32?_eq groups, uint16?_eq groups⟩
  · intro groups
    have spelled : Spells groups v.toNat := spells_iff.2 ⟨count, rfl⟩
    exact ⟨groups?_of_holds spelled.1 (holds_append before groups after),
      unsigned_of_spells spelled⟩

/-- The integer that the groups spell is taken modulo the size of a word, whether the sign of the
last group lies within the word or not. -/
theorem decodes_signed :
    (∀ (front : List UInt8) (last : UInt8),
      let groups := front ++ [last]
      Checked.Leb128.signed groups = .ok (signed groups) ∧
      (signed groups).toInt =
        ((value groups : Int) - if last &&& 0x40 = 0 then 0 else 128 ^ groups.length).bmod
          (2 ^ 64)) ∧
    ∀ (v : Int64) (count : Nat) (before after : List UInt8),
      let groups := padded (signGroup v.toInt) count (shortestSigned v.toInt)
      groups? (before ++ groups ++ after).toArray before.length = some groups ∧
        signed groups = v := by
  refine ⟨fun front last => ?_, fun v count before after => ?_⟩
  · intro groups
    refine ⟨Checked.Leb128.signed_eq groups, ?_⟩
    have sign : signedValue groups =
        (value groups : Int) - if last &&& 0x40 = 0 then 0 else 128 ^ groups.length := by
      simp only [signedValue, groups, List.getLast?_concat]
      split
      · rw [Int.sub_zero]
      · rfl
    rw [toInt_signed, sign]
  · intro groups
    have spelled : SpellsSigned groups v.toInt := spellsSigned_iff.2 ⟨count, rfl⟩
    exact ⟨groups?_of_holds spelled.1 (holds_append before groups after),
      signed_of_spells spelled⟩

end Leb128
end Dwarf2
