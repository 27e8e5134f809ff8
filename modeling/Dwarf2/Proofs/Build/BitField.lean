/-
Bits that are counted from the other end.

An entry counts the bits of a field down from the high end of its storage unit, and the member that
is built from it counts them up from the low end of the aggregate.  As long as the field lies in
its unit and the unit in the range of a word, nothing wraps around on the way, and the member has
the bits that are declared: `BitField.Declares.places`.  Fields of one unit that are declared apart
are recorded apart.
-/
import Dwarf2.Build.Type
import Mathlib.Algebra.Group.Nat.Defs
import Mathlib.Order.CompletePartialOrder
import Mathlib.Order.Interval.Set.Disjoint

namespace Dwarf2

/-- The bits that are recorded for a member. -/
def Symbol.Member.bits (m : Symbol.Member) : Set Nat :=
  Set.Ico m.bitOffset.toNat (m.bitOffset.toNat + m.bitSize.toNat)

namespace Build

variable {src : Source} {c : Entry} {m : Symbol.Member}

/-- Where the bits of a member start, given the bytes of its storage unit. -/
def position (src : Source) (c : Entry) (bytes : Option UInt64) : UInt64 :=
  let offset := ((c.location? src.view .memberLocation).map Location.offset).getD 0
  let size := (c.unsigned? src.view .bitSize).getD 0
  (offset.toUInt64 <<< 3) + match c.unsigned? src.view .bitOffset with
    | some declared => bitsBelow (bytes.getD 0) declared size
    | none => 0

/-- What is declared of a bit field: its first bit, counted from the high end of the storage unit,
and its width, and the size and the place of the unit in bytes. -/
structure BitField where
  declared : Nat
  width : Nat
  bytes : Nat
  location : Nat

namespace BitField

/-- The declared bits. -/
def bits (f : BitField) : Set Nat :=
  Set.Ico f.declared (f.declared + f.width)

/-- The field lies in its unit, and the unit in the range of a word. -/
structure Fits (f : BitField) : Prop where
  inUnit : f.declared + f.width ≤ 8 * f.bytes
  inWord : 8 * (f.location + f.bytes) < 2 ^ 64

/-- The entry declares the field, where the storage unit has so many bytes. -/
structure Declares (src : Source) (c : Entry) (bytes : Option UInt64) (f : BitField) : Prop where
  declared : (c.unsigned? src.view .bitOffset).map UInt64.toNat = some f.declared
  width : ((c.unsigned? src.view .bitSize).getD 0).toNat = f.width
  bytes : bytes.map UInt64.toNat = some f.bytes
  location : (((c.location? src.view .memberLocation).map Location.offset).getD 0).toInt =
    f.location

theorem toNat_bitsBelow {bytes declared size : UInt64} (word : bytes.toNat * 8 < 2 ^ 64)
    (inUnit : declared.toNat + size.toNat ≤ bytes.toNat * 8) :
    (bitsBelow bytes declared size).toNat = bytes.toNat * 8 - declared.toNat - size.toNat := by
  have bits : (bytes * 8).toNat = bytes.toNat * 8 := by
    rw [UInt64.toNat_mul]
    exact Nat.mod_eq_of_lt word
  have after : (bytes * 8 - declared).toNat = bytes.toNat * 8 - declared.toNat := by
    rw [UInt64.toNat_sub_of_le _ _ (UInt64.le_iff_toNat_le.2 (by omega)), bits]
  rw [bitsBelow, UInt64.toNat_sub_of_le _ _ (UInt64.le_iff_toNat_le.2 (by omega)), after]

theorem toNat_toUInt64 {offset : Int64} {n : Nat} (h : offset.toInt = n) :
    offset.toUInt64.toNat = n := by
  have nonneg : 0 ≤ offset := Int64.le_iff_toInt_le.2 (by rw [h]; exact Int.natCast_nonneg n)
  rw [Int64.toNat_toUInt64_of_le nonneg, Int64.toNatClampNeg, h, Int.toNat_natCast]

/-- Nothing wraps around on the way. -/
theorem Declares.toNat_position {bytes : Option UInt64} {f : BitField}
    (h : Declares src c bytes f) (fits : f.Fits) :
    (position src c bytes).toNat = 8 * f.location + 8 * f.bytes - f.declared - f.width := by
  obtain ⟨declared, hdeclared, offset_eq⟩ := Option.map_eq_some_iff.1 h.declared
  obtain ⟨size, rfl, size_eq⟩ := Option.map_eq_some_iff.1 h.bytes
  have inUnit := fits.inUnit
  have inWord := fits.inWord
  have start : ((((c.location? src.view .memberLocation).map Location.offset).getD 0).toUInt64
      <<< 3).toNat = 8 * f.location := by
    rw [UInt64.toNat_shiftLeft, toNat_toUInt64 h.location, Nat.shiftLeft_eq,
      show (3 : UInt64).toNat % 64 = 3 from rfl]
    omega
  have below : (bitsBelow size declared ((c.unsigned? src.view .bitSize).getD 0)).toNat = _ :=
    toNat_bitsBelow (by omega) (by rw [h.width]; omega)
  simp only [position, hdeclared, Option.getD_some]
  rw [UInt64.toNat_add, start, below, h.width, size_eq, offset_eq]
  omega

/-- The member has the bits of the field, and they lie in the storage unit. -/
structure Places (f : BitField) (m : Symbol.Member) : Prop where
  start : m.bitOffset.toNat = 8 * f.location + 8 * f.bytes - f.declared - f.width
  stop : m.bitOffset.toNat + m.bitSize.toNat = 8 * f.location + 8 * f.bytes - f.declared
  inside : m.bits ⊆ Set.Ico (8 * f.location) (8 * f.location + 8 * f.bytes)

theorem Declares.places {bytes : Option UInt64} {f : BitField} (h : Declares src c bytes f)
    (fits : f.Fits) (offset : m.bitOffset = position src c bytes)
    (size : m.bitSize = (c.unsigned? src.view .bitSize).getD 0) : f.Places m := by
  have inUnit := fits.inUnit
  have start := h.toNat_position fits
  have width := h.width
  rw [← offset] at start
  rw [← size] at width
  exact ⟨start, by omega, Set.Ico_subset_Ico (by omega) (by omega)⟩

/-- Turning the bits of a unit around keeps fields apart. -/
theorem Places.disjoint {f g : BitField} {n : Symbol.Member} (hf : f.Fits) (hg : g.Fits)
    (h : f.Places m) (h' : g.Places n) (location : f.location = g.location)
    (bytes : f.bytes = g.bytes) (apart : Disjoint f.bits g.bits) : Disjoint m.bits n.bits := by
  have inUnit := hf.inUnit
  have inUnit' := hg.inUnit
  rw [Symbol.Member.bits, Symbol.Member.bits, h.stop, h'.stop, h.start, h'.start,
    Set.Ico_disjoint_Ico]
  rw [bits, bits, Set.Ico_disjoint_Ico] at apart
  omega

end BitField

end Build
end Dwarf2
