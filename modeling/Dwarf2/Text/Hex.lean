/-
Hexadecimal digits, as messages and summaries show offsets.
-/
namespace Dwarf2
namespace Text

def hexDigits (n : Nat) : String :=
  String.ofList (Nat.toDigits 16 n)

def hex (n : Nat) : String :=
  "0x" ++ hexDigits n

/-- At least `width` digits, with zeros in front. -/
def hexPadded (width n : Nat) : String :=
  "0x" ++ String.ofList ((Nat.toDigits 16 n).leftpad width '0')

end Text
end Dwarf2
