/-
The numbers that bytes and groups spell.

A number has as many bytes or groups as one likes, so what they spell is a natural number, or
an integer.  Words are built by shifts, which lose what has no room: the bytes of a number fit
as long as there are eight of them, an unsigned LEB128 number stops at the largest word, and a
signed one is taken modulo the size of a word.
-/
import Mathlib.Data.Nat.Digits.Lemmas
import Dwarf2.Leb128

namespace Dwarf2

open Nat (ofDigits)

/-- A word that is moved up, with a smaller one put below it. -/
theorem toNat_shiftLeft_or {high low : UInt64} {k : Nat} (room : k < 64)
    (small : low.toNat < 2 ^ k) :
    (high <<< UInt64.ofNat k ||| low).toNat = (high.toNat * 2 ^ k + low.toNat) % 2 ^ 64 := by
  have amount : (UInt64.ofNat k).toNat % 64 = k := by
    rw [UInt64.toNat_ofNat']
    omega
  have size : 2 ^ 64 = 2 ^ (64 - k) * 2 ^ k := by
    rw [← Nat.pow_add]
    congr 1
    omega
  have moved : high.toNat <<< k % 2 ^ 64 = (high.toNat % 2 ^ (64 - k)) <<< k := by
    rw [Nat.shiftLeft_eq, Nat.shiftLeft_eq, size, Nat.mul_mod_mul_right]
  have fits : high.toNat % 2 ^ (64 - k) * 2 ^ k + low.toNat < 2 ^ (64 - k) * 2 ^ k := by
    have kept := Nat.mod_lt high.toNat (Nat.two_pow_pos (64 - k))
    calc high.toNat % 2 ^ (64 - k) * 2 ^ k + low.toNat
        < high.toNat % 2 ^ (64 - k) * 2 ^ k + 2 ^ k := by omega
      _ = (high.toNat % 2 ^ (64 - k) + 1) * 2 ^ k := by ring
      _ ≤ 2 ^ (64 - k) * 2 ^ k := Nat.mul_le_mul_right _ kept
  rw [UInt64.toNat_or, UInt64.toNat_shiftLeft, amount, moved,
    ← Nat.shiftLeft_add_eq_or_of_lt small, Nat.shiftLeft_eq, size, ← Nat.mod_eq_of_lt fits,
    ← Nat.mul_mod_mul_right, Nat.mod_add_mod]

namespace ByteOrder

/-- The number that the bytes spell, however many there are. -/
def value : ByteOrder → List UInt8 → Nat
  | little, bytes => ofDigits 256 (bytes.map UInt8.toNat)
  | big, bytes => ofDigits 256 (bytes.reverse.map UInt8.toNat)

theorem ofDigits_bytes_lt (bytes : List UInt8) :
    ofDigits 256 (bytes.map UInt8.toNat) < 256 ^ bytes.length := by
  have digits : ∀ n ∈ bytes.map UInt8.toNat, n < 256 := by
    intro n hn
    obtain ⟨byte, -, rfl⟩ := List.mem_map.1 hn
    exact byte.toNat_lt
  simpa using Nat.ofDigits_lt_base_pow_length (by decide : 1 < 256) digits

theorem value_lt (order : ByteOrder) (bytes : List UInt8) :
    order.value bytes < 256 ^ bytes.length := by
  cases order with
  | little => exact ofDigits_bytes_lt bytes
  | big => simpa [value] using ofDigits_bytes_lt bytes.reverse

theorem toNat_littleNumber {bytes : List UInt8} (short : bytes.length ≤ 8) :
    (littleNumber bytes).toNat = ofDigits 256 (bytes.map UInt8.toNat) := by
  induction bytes with
  | nil => rfl
  | cons byte rest ih =>
    have fits : ofDigits 256 ((byte :: rest).map UInt8.toNat) < 2 ^ 64 :=
      calc ofDigits 256 ((byte :: rest).map UInt8.toNat)
          < 256 ^ (byte :: rest).length := ofDigits_bytes_lt _
        _ ≤ 256 ^ 8 := Nat.pow_le_pow_right (by decide) short
        _ = 2 ^ 64 := by decide
    have shifted : (littleNumber (byte :: rest)).toNat =
        ((littleNumber rest).toNat * 2 ^ 8 + byte.toUInt64.toNat) % 2 ^ 64 := by
      apply toNat_shiftLeft_or (by decide)
      rw [UInt8.toNat_toUInt64]
      exact byte.toNat_lt
    rw [List.map_cons, Nat.ofDigits_cons] at fits ⊢
    rw [shifted, ih (Nat.le_of_succ_le short), UInt8.toNat_toUInt64]
    omega

theorem toNat_number (order : ByteOrder) {bytes : List UInt8} (short : bytes.length ≤ 8) :
    (order.number bytes).toNat = order.value bytes := by
  cases order with
  | little => exact toNat_littleNumber short
  | big => exact toNat_littleNumber (by simpa using short)

end ByteOrder

namespace Leb128

/-- The number that the groups spell. -/
def value (groups : List UInt8) : Nat :=
  ofDigits 128 (groups.map fun group => group.toNat % 128)

@[simp] theorem value_nil : value [] = 0 := rfl

theorem value_cons (group : UInt8) (groups : List UInt8) :
    value (group :: groups) = group.toNat % 128 + 128 * value groups := by
  simp [value, Nat.ofDigits_cons]

theorem toNat_payload (group : UInt8) : (payload group).toNat = group.toNat % 128 := by
  rw [payload, UInt8.toNat_toUInt64, UInt8.toNat_and]
  exact Nat.and_two_pow_sub_one_eq_mod group.toNat 7

theorem toNat_shiftIn (group : UInt8) (high : UInt64) :
    (shiftIn group high).toNat = (high.toNat * 128 + group.toNat % 128) % 2 ^ 64 := by
  have small : (payload group).toNat < 2 ^ 7 := by
    rw [toNat_payload]
    exact Nat.mod_lt _ (by decide)
  rw [← toNat_payload]
  exact toNat_shiftLeft_or (by decide) small

/-- However many groups there are, the value is what they spell, or the largest word. -/
theorem toNat_unsigned (groups : List UInt8) :
    (unsigned groups).toNat = min (value groups) 0xffffffffffffffff := by
  induction groups with
  | nil => rfl
  | cons group rest ih =>
    have pushed : (unsigned (group :: rest)).toNat =
        (pushGroup group (unsigned rest)).toNat := rfl
    rw [pushed, value_cons, pushGroup]
    split
    · rename_i room
      rw [UInt64.lt_iff_toNat_lt, ih] at room
      change _ < 0x200000000000000 at room
      rw [toNat_shiftIn, ih]
      omega
    · rename_i full
      rw [UInt64.lt_iff_toNat_lt, ih] at full
      change ¬_ < 0x200000000000000 at full
      change 0xffffffffffffffff = _
      omega

/-- The groups are those of one number: the last one, and only that, is marked as such. -/
def Closed (groups : List UInt8) : Prop :=
  ∃ front last, groups = front ++ [last] ∧ (∀ group ∈ front, isLast group = false) ∧
    isLast last = true

theorem Closed.single {last : UInt8} (marked : isLast last = true) : Closed [last] :=
  ⟨[], last, rfl, nofun, marked⟩

theorem Closed.cons {group : UInt8} {groups : List UInt8} (unmarked : isLast group = false)
    (h : Closed groups) : Closed (group :: groups) := by
  obtain ⟨front, last, rfl, before, marked⟩ := h
  refine ⟨group :: front, last, rfl, fun other mem => ?_, marked⟩
  rcases List.mem_cons.1 mem with rfl | mem
  · exact unmarked
  · exact before other mem

theorem Closed.length_pos {groups : List UInt8} (h : Closed groups) : 0 < groups.length := by
  obtain ⟨front, last, rfl, -⟩ := h
  rw [List.length_append]
  exact Nat.succ_pos _

/-- The groups, with any padding, are those of the number. -/
def Spells (groups : List UInt8) (n : Nat) : Prop :=
  Closed groups ∧ value groups = n

theorem unsigned_of_spells {groups : List UInt8} {n : UInt64} (h : Spells groups n.toNat) :
    unsigned groups = n := by
  apply UInt64.toNat.inj
  rw [toNat_unsigned, h.2]
  have := n.toNat_lt
  omega

/-- The integer that the groups spell: bit 6 of the last one counts as the sign. -/
def signedValue (groups : List UInt8) : Int :=
  match groups.getLast? with
  | some last => if last &&& 0x40 = 0 then value groups else value groups - 128 ^ groups.length
  | none => 0

/-- The groups, with any padding, are those of the integer. -/
def SpellsSigned (groups : List UInt8) (n : Int) : Prop :=
  Closed groups ∧ signedValue groups = n

theorem toNat_foldr_shiftIn (groups : List UInt8) (fill : UInt64) :
    (groups.foldr shiftIn fill).toNat =
      (value groups + 128 ^ groups.length * fill.toNat) % 2 ^ 64 := by
  induction groups with
  | nil =>
    simp [Nat.mod_eq_of_lt fill.toNat_lt]
  | cons group rest ih =>
    rw [List.foldr_cons, toNat_shiftIn, ih, value_cons, List.length_cons]
    have : group.toNat % 128 + 128 * value rest + 128 ^ (rest.length + 1) * fill.toNat =
        (value rest + 128 ^ rest.length * fill.toNat) * 128 + group.toNat % 128 := by ring
    rw [this, Nat.add_mod, Nat.mod_mul_mod, ← Nat.add_mod]

theorem toInt_toInt64 (word : UInt64) : word.toInt64.toInt = (word.toNat : Int).bmod (2 ^ 64) := by
  change word.toInt64.toBitVec.toInt = _
  rw [UInt64.toBitVec_toInt64, BitVec.toInt_eq_toNat_bmod]
  rfl

/-- However many groups there are, the value is what they spell, modulo the size of a word. -/
theorem toInt_signed (groups : List UInt8) :
    (signed groups).toInt = (signedValue groups).bmod (2 ^ 64) := by
  have folded : (signed groups).toInt =
      ((value groups : Int) + 128 ^ groups.length * (signFill groups).toNat).bmod (2 ^ 64) := by
    rw [signed, toInt_toInt64, toNat_foldr_shiftIn, Int.natCast_emod, Int.emod_bmod]
    push_cast
    rfl
  rw [folded, signFill, signedValue]
  cases ends : groups.getLast? with
  | none =>
    rw [List.getLast?_eq_none_iff.1 ends]
    rfl
  | some last =>
    dsimp only
    split
    · simp
    · have borrow : (value groups : Int) + 128 ^ groups.length *
          ((0xffffffffffffffff : UInt64).toNat : Int) =
            (value groups - 128 ^ groups.length) + (2 ^ 64 : Nat) * 128 ^ groups.length := by
        change (value groups : Int) + 128 ^ groups.length * 0xffffffffffffffff = _
        push_cast
        ring
      rw [borrow, Int.add_mul_bmod_self_left]

theorem signed_of_spells {groups : List UInt8} {n : Int64} (h : SpellsSigned groups n.toInt) :
    signed groups = n := by
  rw [← Int64.toInt_inj, toInt_signed, h.2]
  exact n.toInt_bmod

end Leb128
end Dwarf2
