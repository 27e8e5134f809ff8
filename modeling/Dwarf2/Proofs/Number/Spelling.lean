/-
Every number is spelled by some bytes and by some groups.

`shortest` and `shortestSigned` are groups without padding.  A word is also read from groups that
spell a number beyond it: `Saturates` and `Wraps` say which word that is.
-/
import Mathlib.Data.Nat.Bitwise
import Dwarf2.Proofs.Number

namespace Dwarf2

namespace ByteOrder

variable {n : Nat}

theorem value_single (order : ByteOrder) (byte : UInt8) : order.value [byte] = byte.toNat := by
  cases order <;> simp [value]

theorem exists_littleValue {width : Nat} (fits : n < 256 ^ width) :
    ∃ bytes : List UInt8, bytes.length = width ∧ little.value bytes = n := by
  induction width generalizing n with
  | zero => exact ⟨[], rfl, (Nat.lt_one_iff.1 fits).symm⟩
  | succ width ih =>
    rw [Nat.pow_succ'] at fits
    obtain ⟨bytes, length, high⟩ := ih (Nat.div_lt_of_lt_mul fits)
    refine ⟨UInt8.ofNat n :: bytes, congrArg Nat.succ length, ?_⟩
    rw [value] at high ⊢
    rw [List.map_cons, Nat.ofDigits_cons, high, UInt8.toNat_ofNat']
    omega

/-- A number that has room in some bytes is spelled by so many bytes, in either order. -/
theorem exists_value (order : ByteOrder) (width : Nat) (fits : n < 256 ^ width) :
    ∃ bytes : List UInt8, bytes.length = width ∧ order.value bytes = n := by
  obtain ⟨bytes, length, spelled⟩ := exists_littleValue fits
  cases order with
  | little => exact ⟨bytes, length, spelled⟩
  | big =>
    exact ⟨bytes.reverse, by rw [List.length_reverse, length], by simpa [value] using spelled⟩

end ByteOrder

theorem bmod_emod_toNat {n : Int} {m : Nat} (low : -(m / 2) ≤ n) (high : n < (m + 1) / 2) :
    ((n % m).toNat : Int).bmod m = n := by
  have positive : (m : Int) ≠ 0 := by omega
  rw [Int.toNat_of_nonneg (Int.emod_nonneg n positive), Int.emod_bmod,
    Int.bmod_eq_of_le low (by omega)]

/-- A signed number is spelled as the number that differs from it by a power of 256. -/
theorem ByteOrder.exists_bmod_value (order : ByteOrder) (width : Nat) {n : Int}
    (low : -((256 ^ width : Nat) / 2) ≤ n) (high : n < ((256 ^ width : Nat) + 1) / 2) :
    ∃ bytes : List UInt8, bytes.length = width ∧
      (order.value bytes : Int).bmod (256 ^ width) = n := by
  have fits : (n % (256 ^ width : Nat)).toNat < 256 ^ width := by
    have positive : 0 < 256 ^ width := Nat.pow_pos (by decide)
    omega
  obtain ⟨bytes, length, spelled⟩ := order.exists_value width fits
  exact ⟨bytes, length, by rw [spelled, bmod_emod_toNat low high]⟩

theorem toInt_toInt8 (byte : UInt8) : byte.toInt8.toInt = (byte.toNat : Int).bmod (2 ^ 8) := by
  change byte.toInt8.toBitVec.toInt = _
  rw [UInt8.toBitVec_toInt8, BitVec.toInt_eq_toNat_bmod]
  rfl

theorem toInt_toInt16 (word : UInt16) :
    word.toInt16.toInt = (word.toNat : Int).bmod (2 ^ 16) := by
  change word.toInt16.toBitVec.toInt = _
  rw [UInt16.toBitVec_toInt16, BitVec.toInt_eq_toNat_bmod]
  rfl

theorem toInt_toInt32 (word : UInt32) :
    word.toInt32.toInt = (word.toNat : Int).bmod (2 ^ 32) := by
  change word.toInt32.toBitVec.toInt = _
  rw [UInt32.toBitVec_toInt32, BitVec.toInt_eq_toNat_bmod]
  rfl

theorem toNat_ofNat_byte {n : Nat} (fits : n < 256) : (UInt8.ofNat n).toNat = n :=
  UInt8.toNat_ofNat_of_lt' fits

namespace Leb128

theorem isLast_eq_true_iff (group : UInt8) : isLast group = true ↔ group.toNat < 128 :=
  decide_eq_true_iff.trans UInt8.lt_iff_toNat_lt

theorem isLast_eq_false_iff (group : UInt8) : isLast group = false ↔ 128 ≤ group.toNat := by
  rw [← Bool.not_eq_true, isLast_eq_true_iff, Nat.not_lt]

/-- The groups of a number, without padding. -/
def shortest (n : Nat) : List UInt8 :=
  if n < 128 then [UInt8.ofNat n] else UInt8.ofNat (n % 128 + 128) :: shortest (n / 128)

theorem spells_shortest (n : Nat) : Spells (shortest n) n := by
  fun_induction shortest n with
  | case1 n small =>
    have byte : (UInt8.ofNat n).toNat = n := toNat_ofNat_byte (by omega)
    refine ⟨.single ?_, ?_⟩
    · rwa [isLast_eq_true_iff, byte]
    · rw [value_cons, byte, value_nil]
      omega
  | case2 n large ih =>
    have byte : (UInt8.ofNat (n % 128 + 128)).toNat = n % 128 + 128 :=
      toNat_ofNat_byte (by omega)
    refine ⟨ih.1.cons ?_, ?_⟩
    · rw [isLast_eq_false_iff, byte]
      omega
    · rw [value_cons, byte, ih.2]
      omega

theorem and_bit_eq_zero_iff (group : UInt8) {bit : UInt8} {k : Nat} (place : bit.toNat = 2 ^ k) :
    group &&& bit = 0 ↔ group.toNat / 2 ^ k % 2 = 0 := by
  rw [← UInt8.toNat_inj, UInt8.toNat_and, place, Nat.and_two_pow,
    Nat.testBit_eq_decide_div_mod_eq, UInt8.toNat_zero]
  by_cases odd : group.toNat / 2 ^ k % 2 = 1
  · have pos := Nat.two_pow_pos k
    simp only [odd, decide_true, Bool.toNat_true, Nat.one_mul]
    omega
  · simp only [odd, decide_false, Bool.toNat_false, Nat.zero_mul, true_iff]
    omega

theorem and_sign_eq_zero_iff (group : UInt8) : group &&& 0x40 = 0 ↔ group.toNat % 128 < 64 := by
  have place : (0x40 : UInt8).toNat = 2 ^ 6 := rfl
  rw [and_bit_eq_zero_iff group place]
  omega

theorem signedValue_single (group : UInt8) :
    signedValue [group] =
      if group.toNat % 128 < 64 then (group.toNat % 128 : Int) else group.toNat % 128 - 128 := by
  simp only [signedValue, List.getLast?_singleton, and_sign_eq_zero_iff, value_cons, value_nil]
  rfl

/-- Only the last group has the sign. -/
theorem signedValue_cons (group : UInt8) {groups : List UInt8} (more : groups ≠ []) :
    signedValue (group :: groups) = group.toNat % 128 + 128 * signedValue groups := by
  obtain ⟨front, last, rfl⟩ := (List.eq_nil_or_concat groups).resolve_left more
  simp only [signedValue, List.concat_eq_append, ← List.cons_append, List.getLast?_concat]
  split
  · rw [List.cons_append, value_cons]
    push_cast
    ring
  · rw [List.cons_append, value_cons, List.length_cons, pow_succ]
    push_cast
    ring

/-- The groups of an integer, without padding. -/
def shortestSigned (n : Int) : List UInt8 :=
  if -64 ≤ n ∧ n < 64 then [UInt8.ofNat (n % 128).toNat]
  else UInt8.ofNat ((n % 128).toNat + 128) :: shortestSigned (n / 128)
termination_by n.natAbs
decreasing_by omega

theorem Closed.ne_nil {groups : List UInt8} (h : Closed groups) : groups ≠ [] :=
  List.ne_nil_of_length_pos h.length_pos

theorem spellsSigned_shortestSigned (n : Int) : SpellsSigned (shortestSigned n) n := by
  fun_induction shortestSigned n with
  | case1 n small =>
    have byte : (UInt8.ofNat (n % 128).toNat).toNat = (n % 128).toNat :=
      toNat_ofNat_byte (by omega)
    refine ⟨.single ?_, ?_⟩
    · rw [isLast_eq_true_iff, byte]
      omega
    · rw [signedValue_single, byte]
      split <;> omega
  | case2 n large ih =>
    have byte : (UInt8.ofNat ((n % 128).toNat + 128)).toNat = (n % 128).toNat + 128 :=
      toNat_ofNat_byte (by omega)
    refine ⟨ih.1.cons ?_, ?_⟩
    · rw [isLast_eq_false_iff, byte]
      omega
    · rw [signedValue_cons _ ih.1.ne_nil, byte, ih.2]
      omega

theorem isZero_iff (groups : List UInt8) : isZero groups = true ↔ value groups = 0 := by
  have single (group : UInt8) : payload group = 0 ↔ group.toNat % 128 = 0 := by
    rw [← UInt64.toNat_inj, toNat_payload]
    rfl
  induction groups with
  | nil => exact iff_of_true rfl rfl
  | cons group rest ih =>
    have ih : rest.all (payload · = 0) = true ↔ value rest = 0 := ih
    rw [isZero, List.all_cons, Bool.and_eq_true, ih, decide_eq_true_iff, single, value_cons]
    omega

theorem uint16?_eq_some_iff {groups : List UInt8} {n : UInt16} :
    uint16? groups = some n ↔ value groups = n.toNat := by
  have small := n.toNat_lt
  have word := toNat_unsigned groups
  unfold uint16?
  dsimp only
  split
  · rename_i fits
    have fits : (unsigned groups).toNat ≤ 0xffff := fits
    rw [Option.some_inj, ← UInt16.toNat_inj, UInt64.toNat_toUInt16]
    omega
  · rename_i wide
    have wide : ¬(unsigned groups).toNat ≤ 0xffff := wide
    refine iff_of_false nofun fun eq => ?_
    omega

/-! ## Words -/

/-- The groups spell the word, or a number that is beyond every word and is read as the largest. -/
def Saturates (groups : List UInt8) (n : UInt64) : Prop :=
  Closed groups ∧ n.toNat = min (value groups) 0xffffffffffffffff

/-- The groups spell the word, or a number that differs from it by a multiple of `2 ^ 64`. -/
def Wraps (groups : List UInt8) (n : Int64) : Prop :=
  Closed groups ∧ n.toInt = (signedValue groups).bmod (2 ^ 64)

theorem saturates_iff {groups : List UInt8} {n : UInt64} :
    Saturates groups n ↔ Closed groups ∧ unsigned groups = n := by
  rw [Saturates, ← UInt64.toNat_inj, toNat_unsigned, eq_comm]

theorem wraps_iff {groups : List UInt8} {n : Int64} :
    Wraps groups n ↔ Closed groups ∧ signed groups = n := by
  rw [Wraps, ← Int64.toInt_inj, toInt_signed, eq_comm]

theorem Spells.saturates {groups : List UInt8} {n : UInt64} (h : Spells groups n.toNat) :
    Saturates groups n :=
  saturates_iff.2 ⟨h.1, unsigned_of_spells h⟩

theorem SpellsSigned.wraps {groups : List UInt8} {n : Int64} (h : SpellsSigned groups n.toInt) :
    Wraps groups n :=
  wraps_iff.2 ⟨h.1, signed_of_spells h⟩

theorem Saturates.eq_zero_iff {groups : List UInt8} {n : UInt64} (h : Saturates groups n) :
    n = 0 ↔ value groups = 0 := by
  rw [← UInt64.toNat_inj, h.2]
  change min _ _ = 0 ↔ _
  omega

theorem exists_saturates (n : UInt64) : ∃ groups, Saturates groups n :=
  ⟨_, (spells_shortest n.toNat).saturates⟩

theorem exists_wraps (n : Int64) : ∃ groups, Wraps groups n :=
  ⟨_, (spellsSigned_shortestSigned n.toInt).wraps⟩

end Leb128
end Dwarf2
