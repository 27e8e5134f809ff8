/-
LEB128 numbers from the first group on.

A machine puts each group in its place as it comes, shifted by seven bits for every group before
it.  No shift is ever by all bits of a word: groups that lie beyond are looked at before they are
shifted.  What comes out is what the groups spell.
-/
import Dwarf2.Proofs.Checked.Step
import Dwarf2.Proofs.Number

namespace Dwarf2
namespace Checked
namespace Leb128

open Dwarf2.Leb128 (payload shiftIn signFill value value_nil value_cons toNat_payload
  toNat_unsigned toNat_foldr_shiftIn)

/-- The value of the groups from `index` on, put above the bits of those before them.  It stops
at the largest word. -/
def unsignedFrom (index : Nat) (below : UInt64) : List UInt8 → Checked UInt64
  | [] => return below
  | group :: rest => do
    if payload group = 0 then
      unsignedFrom (index + 1) below rest
    else if 64 ≤ index * 7 then
      return 0xffffffffffffffff
    else
      let shifted ← shiftLeft (payload group) (index * 7)
      if (← shiftRight shifted (index * 7)) = payload group then
        unsignedFrom (index + 1) (below ||| shifted) rest
      else
        return 0xffffffffffffffff

def unsigned (groups : List UInt8) : Checked UInt64 :=
  unsignedFrom 0 0 groups

/-- The value of the groups that are still to come, put above `below`, and the sign of the last
one put above all. -/
def signedFrom (shift : Nat) (below : UInt64) (last : UInt8) : List UInt8 → Checked UInt64
  | [] => do
    if shift < 64 ∧ last &&& 0x40 ≠ 0 then
      return below ||| (← shiftLeft 0xffffffffffffffff shift)
    else
      return below
  | group :: rest => do
    if shift < 64 then
      signedFrom (shift + 7) (below ||| (← shiftLeft (payload group) shift)) group rest
    else
      signedFrom (shift + 7) below group rest

def signed (groups : List UInt8) : Checked Int64 :=
  UInt64.toInt64 <$> signedFrom 0 0 0 groups

/-! ## Unsigned numbers -/

theorem payload_lt (group : UInt8) : (payload group).toNat < 128 := by
  rw [toNat_payload]
  exact Nat.mod_lt _ (by decide)

/-- A group that is put above what is there takes seven bits more. -/
theorem add_mul_payload_lt {low size : Nat} (small : low < size) (group : UInt8) :
    low + size * (payload group).toNat < size * 128 := by
  have := payload_lt group
  calc low + size * (payload group).toNat
      < size + size * (payload group).toNat := by omega
    _ = size * ((payload group).toNat + 1) := by ring
    _ ≤ size * 128 := Nat.mul_le_mul_left _ this

/-- A word that is put above another one, as far as there is room. -/
theorem toNat_or_shiftLeft {low high : UInt64} {k : Nat} (room : k < 64)
    (small : low.toNat < 2 ^ k) :
    (low ||| high <<< UInt64.ofNat k).toNat = (low.toNat + 2 ^ k * high.toNat) % 2 ^ 64 := by
  rw [UInt64.or_comm, toNat_shiftLeft_or room small, Nat.mul_comm, Nat.add_comm]

theorem toNat_shiftLeft_of_lt {word : UInt64} {k : Nat} (room : k < 64) :
    (word <<< UInt64.ofNat k).toNat = 2 ^ k * word.toNat % 2 ^ 64 := by
  have alone := @toNat_or_shiftLeft 0 word k room (Nat.two_pow_pos k)
  rwa [UInt64.zero_or, UInt64.toNat_zero, Nat.zero_add] at alone

theorem toNat_shiftRight_of_lt {word : UInt64} {k : Nat} (room : k < 64) :
    (word >>> UInt64.ofNat k).toNat = word.toNat / 2 ^ k := by
  have amount : (UInt64.ofNat k).toNat % 64 = k := by
    rw [UInt64.toNat_ofNat']
    omega
  rw [UInt64.toNat_shiftRight, amount, Nat.shiftRight_eq_div_pow]

/-- A word comes back from where it was shifted to exactly if it had room there. -/
theorem shiftRight_shiftLeft_eq_iff {word : UInt64} {k : Nat} (room : k < 64) :
    (word <<< UInt64.ofNat k) >>> UInt64.ofNat k = word ↔ 2 ^ k * word.toNat < 2 ^ 64 := by
  rw [← UInt64.toNat_inj, toNat_shiftRight_of_lt room, toNat_shiftLeft_of_lt room]
  have pos := Nat.two_pow_pos k
  constructor
  · intro back
    have below : 2 ^ k * word.toNat % 2 ^ 64 < 2 ^ 64 := Nat.mod_lt _ (by decide)
    calc 2 ^ k * word.toNat
        = 2 ^ k * (2 ^ k * word.toNat % 2 ^ 64 / 2 ^ k) := by rw [back]
      _ ≤ 2 ^ k * word.toNat % 2 ^ 64 := Nat.mul_div_le _ _
      _ < 2 ^ 64 := below
  · intro fits
    rw [Nat.mod_eq_of_lt fits, Nat.mul_div_cancel_left _ pos]

/-- Where there is room for the word above, there is room for both. -/
theorem toNat_or_shiftLeft_of_fits {low high : UInt64} {k : Nat} (room : k < 64)
    (small : low.toNat < 2 ^ k) (fits : 2 ^ k * high.toNat < 2 ^ 64) :
    (low ||| high <<< UInt64.ofNat k).toNat = low.toNat + 2 ^ k * high.toNat := by
  have size : 2 ^ 64 = 2 ^ k * 2 ^ (64 - k) := by
    rw [← Nat.pow_add]
    congr 1
    omega
  have short : high.toNat < 2 ^ (64 - k) := Nat.lt_of_mul_lt_mul_left (size ▸ fits)
  have both : low.toNat + 2 ^ k * high.toNat < 2 ^ 64 :=
    calc low.toNat + 2 ^ k * high.toNat
        < 2 ^ k + 2 ^ k * high.toNat := by omega
      _ = 2 ^ k * (high.toNat + 1) := by ring
      _ ≤ 2 ^ k * 2 ^ (64 - k) := Nat.mul_le_mul_left _ short
      _ = 2 ^ 64 := size.symm
  rw [toNat_or_shiftLeft room small, Nat.mod_eq_of_lt both]

theorem pow_seven_mul (index : Nat) : 2 ^ (index * 7) * 128 = 2 ^ ((index + 1) * 7) := by
  rw [Nat.succ_mul, Nat.pow_add]

/-- What is built from the first group on is the same number as what is built from the last. -/
theorem unsignedFrom_eq (groups : List UInt8) {index : Nat} {below result : UInt64}
    (small : below.toNat < 2 ^ (index * 7))
    (spelled : result.toNat =
      min (below.toNat + 2 ^ (index * 7) * value groups) 0xffffffffffffffff) :
    unsignedFrom index below groups = .ok result := by
  induction groups generalizing index below with
  | nil =>
    have same : below = result := by
      apply UInt64.toNat.inj
      have := below.toNat_lt
      rw [spelled, value_nil]
      omega
    rw [same]
    rfl
  | cons group rest ih =>
    have whole : below.toNat + 2 ^ (index * 7) * value (group :: rest) =
        below.toNat + 2 ^ (index * 7) * (payload group).toNat +
          2 ^ ((index + 1) * 7) * value rest := by
      rw [value_cons, ← toNat_payload, ← pow_seven_mul]
      ring
    have grown : below.toNat + 2 ^ (index * 7) * (payload group).toNat <
        2 ^ ((index + 1) * 7) :=
      pow_seven_mul index ▸ add_mul_payload_lt small group
    rw [whole] at spelled
    have full (past : 2 ^ 64 ≤ 2 ^ (index * 7) * (payload group).toNat) :
        0xffffffffffffffff = result := by
      apply UInt64.toNat.inj
      rw [spelled]
      change 0xffffffffffffffff = _
      omega
    rw [unsignedFrom]
    split
    · -- A group of zeros only takes its place.
      rename_i none
      rw [none, UInt64.toNat_zero, Nat.mul_zero, Nat.add_zero] at spelled grown
      exact ih grown spelled
    · rename_i some
      have pos : 0 < (payload group).toNat :=
        Nat.pos_of_ne_zero fun zero => some (UInt64.toNat.inj zero)
      split
      · rename_i beyond
        rw [← full (Nat.le_trans (Nat.pow_le_pow_right (by decide) beyond)
          (Nat.le_mul_of_pos_right _ pos))]
        rfl
      · rename_i inside
        have room : index * 7 < 64 := Nat.not_le.1 inside
        simp only [shiftLeft, shiftRight, guarded_of room, ok_bind]
        split
        · rename_i back
          have exact := toNat_or_shiftLeft_of_fits room small
            ((shiftRight_shiftLeft_eq_iff room).1 back)
          exact ih (exact ▸ grown) (exact ▸ spelled)
        · rename_i lost
          rw [← full (Nat.not_lt.1 fun fits => lost ((shiftRight_shiftLeft_eq_iff room).2 fits))]
          rfl

theorem unsigned_eq (groups : List UInt8) :
    unsigned groups = .ok (Dwarf2.Leb128.unsigned groups) := by
  refine unsignedFrom_eq groups (Nat.two_pow_pos _) ?_
  rw [toNat_unsigned]
  simp

/-! ## Signed numbers -/

/-- What is shifted by a word or more is nothing to a word. -/
theorem mod_of_le_shift {shift : Nat} (beyond : 64 ≤ shift) (low high : Nat) :
    (low + 2 ^ shift * high) % 2 ^ 64 = low % 2 ^ 64 := by
  rw [← Nat.add_sub_cancel' beyond, Nat.pow_add, Nat.mul_assoc, Nat.add_mul_mod_self_left]

/-- Behind the last group only the sign is still to come. -/
theorem signedFrom_nil {shift : Nat} {below result : UInt64} {last : UInt8}
    (small : below.toNat < 2 ^ shift)
    (spelled : result.toNat = (below.toNat + 2 ^ shift * (signFill [last]).toNat) % 2 ^ 64) :
    signedFrom shift below last [] = .ok result := by
  have settled (h : result.toNat = below.toNat % 2 ^ 64) : below = result := by
    apply UInt64.toNat.inj
    rw [h, Nat.mod_eq_of_lt below.toNat_lt]
  rw [signedFrom]
  split
  · rename_i negative
    have filled : signFill [last] = 0xffffffffffffffff := if_neg negative.2
    have same : below ||| 0xffffffffffffffff <<< UInt64.ofNat shift = result := by
      apply UInt64.toNat.inj
      rw [toNat_or_shiftLeft negative.1 small, spelled, filled]
    rw [shiftLeft, guarded_of negative.1, ok_bind, same]
    rfl
  · rename_i unfilled
    rw [settled]
    · rfl
    · by_cases beyond : 64 ≤ shift
      · rw [spelled, mod_of_le_shift beyond]
      · have positive : last &&& 0x40 = 0 :=
          Decidable.not_not.1 fun sign => unfilled ⟨Nat.not_le.1 beyond, sign⟩
        have zero : signFill [last] = 0 := if_pos positive
        rw [spelled, zero, UInt64.toNat_zero, Nat.mul_zero, Nat.add_zero]

theorem signFill_cons_cons (last group : UInt8) (rest : List UInt8) :
    signFill (last :: group :: rest) = signFill (group :: rest) := by
  simp only [signFill, List.getLast?_cons_cons]

theorem signedFrom_eq (groups : List UInt8) {shift : Nat} {below result : UInt64} {last : UInt8}
    (small : below.toNat < 2 ^ shift)
    (spelled : result.toNat = (below.toNat + 2 ^ shift *
      (value groups + 128 ^ groups.length * (signFill (last :: groups)).toNat)) % 2 ^ 64) :
    signedFrom shift below last groups = .ok result := by
  induction groups generalizing shift below last with
  | nil =>
    refine signedFrom_nil small ?_
    simpa using spelled
  | cons group rest ih =>
    have power : 2 ^ (shift + 7) = 2 ^ shift * 128 := Nat.pow_add 2 shift 7
    rw [signFill_cons_cons] at spelled
    rw [signedFrom]
    split
    · rename_i room
      rw [shiftLeft, guarded_of room, ok_bind]
      have placed := @toNat_or_shiftLeft below (payload group) shift room small
      have grown : below.toNat + 2 ^ shift * (payload group).toNat < 2 ^ (shift + 7) :=
        power ▸ add_mul_payload_lt small group
      refine ih (placed ▸ Nat.lt_of_le_of_lt (Nat.mod_le _ _) grown) ?_
      rw [spelled, placed, Nat.mod_add_mod, power, value_cons, ← toNat_payload, List.length_cons,
        Nat.pow_succ]
      congr 1
      ring
    · rename_i full
      have beyond : 64 ≤ shift := Nat.not_lt.1 full
      have wider : 2 ^ shift ≤ 2 ^ (shift + 7) :=
        Nat.pow_le_pow_right (by decide) (Nat.le_add_right ..)
      refine ih (Nat.lt_of_lt_of_le small wider) ?_
      rw [spelled, mod_of_le_shift beyond, mod_of_le_shift (Nat.le_add_right_of_le beyond)]

theorem signed_eq (groups : List UInt8) :
    signed groups = .ok (Dwarf2.Leb128.signed groups) := by
  have signs : signFill (0 :: groups) = signFill groups := by
    cases groups with
    | nil => rfl
    | cons group rest => exact signFill_cons_cons 0 group rest
  have folded : signedFrom 0 0 0 groups = .ok (groups.foldr shiftIn (signFill groups)) := by
    refine signedFrom_eq groups (Nat.two_pow_pos _) ?_
    rw [toNat_foldr_shiftIn, signs]
    simp
  rw [signed, folded]
  rfl

end Leb128
end Checked
end Dwarf2
