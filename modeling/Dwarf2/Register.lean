/-
Registers of the i386: their DWARF numbers and their CodeView identifiers.
-/
namespace Dwarf2
namespace Register

/-- The identifier of no register. -/
def none : UInt16 := 0

/-- The CodeView identifier of a DWARF register.  The general registers come in one order in
both, and so do the floating point stack and the vector registers. -/
def toCodeView (register : UInt16) : UInt16 :=
  if register ≤ 7 then 17 + register
  else if 16 ≤ register ∧ register ≤ 23 then 128 + (register - 16)
  else if 32 ≤ register ∧ register ≤ 39 then 154 + (register - 32)
  else match register with
    | 8 => 33
    | 9 => 34
    | 10 => 26
    | 11 => 27
    | 12 => 28
    | 13 => 25
    | 14 => 29
    | 15 => 30
    | 24 => 136
    | 25 => 137
    | 26 => 138
    | 40 => 211
    | _ => none

end Register
end Dwarf2
