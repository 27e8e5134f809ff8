/-
Byte strings, searched from a position, and the numbers that bytes spell in either order.
-/
namespace Dwarf2

abbrev Bytes := Array UInt8

namespace Bytes

/-- Index of the first byte at or after `start` that `p` accepts. -/
def indexFrom? (bytes : Bytes) (p : UInt8 → Bool) (start : Nat) : Option Nat :=
  if h : start < bytes.size then
    if p bytes[start] then some start else indexFrom? bytes p (start + 1)
  else
    none
termination_by bytes.size - start

theorem indexFrom?_eq_some {bytes : Bytes} {p : UInt8 → Bool} {start i : Nat}
    (h : bytes.indexFrom? p start = some i) : start ≤ i ∧ i < bytes.size := by
  fun_induction indexFrom? bytes p start with
  | case1 start inside => exact Option.some.inj h ▸ ⟨Nat.le_refl _, inside⟩
  | case2 start _ _ ih => exact ⟨Nat.le_of_succ_le (ih h).1, (ih h).2⟩
  | case3 => simp at h

end Bytes

/-- Which end of a number its first byte stands for. -/
inductive ByteOrder
  | little
  | big
deriving DecidableEq, Repr

namespace ByteOrder

def littleNumber (bytes : List UInt8) : UInt64 :=
  bytes.foldr (fun byte high => high <<< 8 ||| byte.toUInt64) 0

/-- The number spelled by at most eight bytes. -/
def number : ByteOrder → List UInt8 → UInt64
  | little, bytes => littleNumber bytes
  | big, bytes => littleNumber bytes.reverse

end ByteOrder

end Dwarf2
